import Mathlib.Data.Set.Insert

namespace NixiSbc.SlidingWindow

variable {w : Nat}

/-- The highest number recorded so far and a bitmap of the `w` numbers that
end there: bit `k` stands for `top - k`. -/
structure Window (w : Nat) where
  top : Nat
  bits : BitVec w

def Window.first (w i : Nat) : Window w := ⟨i, 1#w⟩

/-- Already recorded, or too far below the top to tell. -/
def Window.seen (W : Window w) (i : Nat) : Bool :=
  decide (i ≤ W.top) && (decide (w ≤ W.top - i) || W.bits.getLsbD (W.top - i))

def Window.record (W : Window w) (i : Nat) : Window w :=
  if W.top < i then ⟨i, (W.bits <<< (i - W.top)) ||| 1#w⟩
  else ⟨W.top, W.bits ||| (1#w <<< (W.top - i))⟩

/-- The window is exact about the set of recorded numbers as far as it reaches. -/
structure Tracks (W : Window w) (S : Set Nat) : Prop where
  top_mem : W.top ∈ S
  le_top : ∀ i ∈ S, i ≤ W.top
  bit : ∀ k, k < w → (W.bits.getLsbD k = true ↔ k ≤ W.top ∧ W.top - k ∈ S)

theorem getLsbD_one (hw : 0 < w) (k : Nat) : (1#w).getLsbD k = decide (k = 0) := by
  simp [BitVec.getLsbD_one, hw]

theorem getLsbD_one_shiftLeft (n k : Nat) (hn : n < w) :
    ((1#w) <<< n).getLsbD k = decide (k = n) := by
  rw [BitVec.getLsbD_shiftLeft, BitVec.getLsbD_one, Bool.eq_iff_iff]
  simp only [Bool.and_eq_true, decide_eq_true_eq, Bool.not_eq_true', decide_eq_false_iff_not]
  omega

theorem first_tracks (hw : 0 < w) (i : Nat) : Tracks (Window.first w i) {i} where
  top_mem := rfl
  le_top j hj := by
    cases hj
    exact le_rfl
  bit k hk := by
    simp only [Window.first, getLsbD_one hw, decide_eq_true_eq, Set.mem_singleton_iff]
    omega

/-- A number is refused exactly when it fell out of the window or was recorded. -/
theorem Tracks.seen_eq_false {W : Window w} {S : Set Nat} (h : Tracks W S) (i : Nat) :
    W.seen i = false ↔ W.top < i + w ∧ i ∉ S := by
  by_cases hi : i ≤ W.top
  · by_cases hw : w ≤ W.top - i
    · simp only [Window.seen, hi, hw, decide_true, Bool.true_or, Bool.and_self, Bool.true_eq_false,
        false_iff, not_and, not_not]
      intro hlt
      omega
    · have hb := h.bit (W.top - i) (by omega)
      rw [show W.top - (W.top - i) = i by omega] at hb
      simp only [Window.seen, hi, hw, decide_true, decide_false, Bool.false_or, Bool.true_and,
        ← Bool.not_eq_true, hb, not_and]
      constructor
      · intro hs
        exact ⟨by omega, hs (by omega)⟩
      · intro hs _
        exact hs.2
  · have hS : i ∉ S := fun hm => hi (h.le_top i hm)
    simp only [Window.seen, hi, decide_false, Bool.false_and, hS, not_false_eq_true, and_true, true_iff]
    omega

/-- Recording a number that the window still reaches keeps it exact. -/
theorem Tracks.record {W : Window w} {S : Set Nat} (h : Tracks W S) {i : Nat}
    (hi : W.top < i + w) : Tracks (W.record i) (insert i S) := by
  by_cases hlt : W.top < i
  · rw [Window.record, if_pos hlt]
    refine ⟨Set.mem_insert i S, ?_, ?_⟩
    · intro j hj
      rcases Set.mem_insert_iff.mp hj with rfl | hj
      · exact le_rfl
      · exact (h.le_top j hj).trans hlt.le
    · intro k hk
      simp only [BitVec.getLsbD_or, BitVec.getLsbD_shiftLeft, getLsbD_one (by omega : 0 < w), hk,
        decide_true, Bool.true_and, Bool.or_eq_true, Bool.and_eq_true, Bool.not_eq_true',
        decide_eq_false_iff_not, decide_eq_true_eq, Set.mem_insert_iff]
      by_cases hk0 : k = 0
      · subst hk0; simp
      · by_cases hkd : k < i - W.top
        · -- the numbers between the old top and the new one were never recorded
          have hn : i - k ∉ S := fun hm => by have := h.le_top _ hm; omega
          simp only [hkd, not_true_eq_false, false_and, hk0, or_self, hn, or_false, false_iff, not_and]
          omega
        · rw [h.bit (k - (i - W.top)) (by omega),
            show W.top - (k - (i - W.top)) = i - k by omega]
          simp only [hkd, not_false_eq_true, true_and, hk0, or_false]
          constructor
          · intro hm
            exact ⟨by omega, Or.inr hm.2⟩
          · intro hm
            exact ⟨by omega, hm.2.resolve_left (by omega)⟩
  · rw [Window.record, if_neg hlt]
    refine ⟨Set.mem_insert_of_mem i h.top_mem, ?_, ?_⟩
    · intro j hj
      rcases Set.mem_insert_iff.mp hj with rfl | hj
      · exact Nat.le_of_not_lt hlt
      · exact h.le_top j hj
    · intro k hk
      have hd : W.top - i < w := by omega
      simp only [BitVec.getLsbD_or, getLsbD_one_shiftLeft (W.top - i) k hd, Bool.or_eq_true,
        decide_eq_true_eq, h.bit k hk, Set.mem_insert_iff]
      constructor
      · rintro (hm | hm)
        · exact ⟨hm.1, Or.inr hm.2⟩
        · exact ⟨by omega, Or.inl (by omega)⟩
      · rintro ⟨hle, hm | hm⟩
        · exact Or.inr (by omega)
        · exact Or.inl ⟨hle, hm⟩

end NixiSbc.SlidingWindow

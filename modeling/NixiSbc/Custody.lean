import Mathlib.Algebra.GroupWithZero.Nat
import Mathlib.Data.Finset.Card
import Mathlib.Data.Finset.Disjoint
import Mathlib.Data.Finset.SDiff
import Mathlib.Data.List.Nodup

namespace NixiSbc.Custody

variable {ι α : Type}

/-- Every item is in at most one place, and there at most once. -/
structure Exclusive (contents : ι → List α) : Prop where
  nodup : ∀ i, (contents i).Nodup
  unique : ∀ {i j x}, x ∈ contents i → x ∈ contents j → i = j

variable {f g h : ι → List α}

theorem exclusive_nil : Exclusive fun _ : ι => ([] : List α) :=
  ⟨fun _ => List.nodup_nil, fun hx => absurd hx List.not_mem_nil⟩

theorem Exclusive.perm (he : Exclusive f) (hp : ∀ i, (g i).Perm (f i)) : Exclusive g :=
  ⟨fun i => (hp i).nodup_iff.mpr (he.nodup i),
    fun hx hy => he.unique ((hp _).mem_iff.mp hx) ((hp _).mem_iff.mp hy)⟩

theorem Exclusive.add (he : Exclusive f) {x : α} {i : ι} (hx : ∀ j, x ∉ f j)
    (hi : (g i).Perm (x :: f i)) (ho : ∀ j, j ≠ i → g j = f j) : Exclusive g := by
  have only {j : ι} (hj : x ∈ g j) : j = i := by
    by_contra hne
    rw [ho j hne] at hj
    exact hx j hj
  have old {j : ι} {y : α} (hy : y ∈ g j) (hne : y ≠ x) : y ∈ f j := by
    by_cases hj : j = i
    · subst hj
      exact (List.mem_cons.mp (hi.mem_iff.mp hy)).resolve_left hne
    · rwa [ho j hj] at hy
  constructor
  · intro j
    by_cases hj : j = i
    · subst hj
      exact hi.nodup_iff.mpr (List.nodup_cons.mpr ⟨hx j, he.nodup j⟩)
    · rw [ho j hj]
      exact he.nodup j
  · intro j k y hyj hyk
    by_cases hy : y = x
    · subst hy
      rw [only hyj, only hyk]
    · exact he.unique (old hyj hy) (old hyk hy)

theorem Exclusive.remove (he : Exclusive f) {x : α} {i : ι} (hi : (f i).Perm (x :: g i))
    (ho : ∀ j, j ≠ i → g j = f j) : Exclusive g ∧ ∀ j, x ∉ g j := by
  have hsub {j : ι} {y : α} (hy : y ∈ g j) : y ∈ f j := by
    by_cases hj : j = i
    · subst hj
      exact hi.mem_iff.mpr (List.mem_cons_of_mem _ hy)
    · rwa [ho j hj] at hy
  have hnd := List.nodup_cons.mp (hi.nodup_iff.mp (he.nodup i))
  refine ⟨⟨fun j => ?_, fun hx hy => he.unique (hsub hx) (hsub hy)⟩, fun j hx => ?_⟩
  · by_cases hj : j = i
    · subst hj
      exact hnd.2
    · rw [ho j hj]
      exact he.nodup j
  · have hj : j = i := he.unique (hsub hx) (hi.mem_iff.mpr List.mem_cons_self)
    subst hj
    exact hnd.1 hx

theorem Exclusive.move (he : Exclusive f) {x : α} {i j : ι} (hij : i ≠ j)
    (hi : (f i).Perm (x :: g i)) (hj : (g j).Perm (x :: f j))
    (ho : ∀ k, k ≠ i → k ≠ j → g k = f k) : Exclusive g := by
  classical
  have hrem := he.remove (g := Function.update f i (g i)) (x := x) (i := i)
    (by rw [Function.update_self]; exact hi) (fun k hk => Function.update_of_ne hk _ _)
  refine hrem.1.add hrem.2 (i := j) ?_ fun k hk => ?_
  · rw [Function.update_of_ne hij.symm]
    exact hj
  · by_cases hki : k = i
    · subst hki
      rw [Function.update_self]
    · rw [Function.update_of_ne hki, ho k hki hk]

section Cells

variable {κ : Type} {cells : α → Finset κ} {items items' : List α} {marked : Finset κ} {x : α}

/-- The marked cells are those of the items, and no two items have one in common. -/
structure Covered (cells : α → Finset κ) (items : List α) (marked : Finset κ) : Prop where
  apart : items.Pairwise fun x y => Disjoint (cells x) (cells y)
  mem_iff : ∀ c, c ∈ marked ↔ ∃ x ∈ items, c ∈ cells x

theorem covered_nil (cells : α → Finset κ) : Covered cells [] ∅ :=
  ⟨List.Pairwise.nil, fun c => by simp⟩

theorem Covered.perm (h : Covered cells items marked) (hp : items'.Perm items) :
    Covered cells items' marked := by
  refine ⟨hp.symm.pairwise h.apart fun hxy => hxy.symm, fun c => ?_⟩
  rw [h.mem_iff]
  simp only [hp.mem_iff]

/-- Items that have a cell are pairwise different. -/
theorem Covered.nodup (h : Covered cells items marked) (hne : ∀ x ∈ items, (cells x).Nonempty) :
    items.Nodup := by
  apply h.apart.imp_of_mem
  rintro x y hx - hdisj rfl
  exact (hne x hx).ne_empty (disjoint_self.mp hdisj)

variable [DecidableEq κ]

theorem Covered.take (h : Covered cells items marked) (hx : Disjoint (cells x) marked) :
    Covered cells (x :: items) (marked ∪ cells x) := by
  refine ⟨List.pairwise_cons.mpr ⟨fun y hy => ?_, h.apart⟩, fun c => ?_⟩
  · refine hx.mono_right fun c hc => ?_
    exact (h.mem_iff c).mpr ⟨y, hy, hc⟩
  · rw [Finset.mem_union, h.mem_iff, List.exists_mem_cons_iff, or_comm]

theorem Covered.drop (h : Covered cells (x :: items) marked) :
    Covered cells items (marked \ cells x) := by
  obtain ⟨hx, hitems⟩ := List.pairwise_cons.mp h.apart
  refine ⟨hitems, fun c => ?_⟩
  rw [Finset.mem_sdiff, h.mem_iff, List.exists_mem_cons_iff]
  constructor
  · rintro ⟨hc | hc, hne⟩
    · exact absurd hc hne
    · exact hc
  · rintro ⟨y, hy, hc⟩
    exact ⟨.inr ⟨y, hy, hc⟩, fun hcx => Finset.disjoint_left.mp (hx y hy) hcx hc⟩

theorem Covered.card (h : Covered cells items marked) : marked.card = (items.map fun x => (cells x).card).sum := by
  induction items generalizing marked with
  | nil =>
      have hempty : marked = ∅ := Finset.eq_empty_iff_forall_notMem.mpr fun c hc => by simpa using (h.mem_iff c).mp hc
      rw [hempty]
      rfl
  | cons x items ih =>
      have hsub : cells x ⊆ marked := fun c hc => (h.mem_iff c).mpr ⟨x, List.mem_cons_self, hc⟩
      rw [List.map_cons, List.sum_cons, ← ih h.drop, Nat.add_comm, Finset.card_sdiff_add_card_eq_card hsub]

end Cells

end NixiSbc.Custody

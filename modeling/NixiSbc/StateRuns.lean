import Mathlib.Data.List.Basic

namespace NixiSbc.StateRuns

variable {σ α β : Type}

/-- Feed a list of inputs through a stateful operation and collect its outputs. -/
def runAll (f : σ → α → β × σ) : σ → List α → List β × σ
  | s, [] => ([], s)
  | s, a :: as =>
      let r := f s a
      let t := runAll f r.2 as
      (r.1 :: t.1, t.2)

theorem runAll_append (f : σ → α → β × σ) (s : σ) (xs ys : List α) :
    runAll f s (xs ++ ys) =
      ((runAll f s xs).1 ++ (runAll f (runAll f s xs).2 ys).1,
        (runAll f (runAll f s xs).2 ys).2) := by
  induction xs generalizing s with
  | nil => rfl
  | cons x xs ih => simp [runAll, ih]

theorem runAll_concat (f : σ → α → β × σ) (s : σ) (xs : List α) (y : α) :
    runAll f s (xs ++ [y]) =
      ((runAll f s xs).1 ++ [(f (runAll f s xs).2 y).1], (f (runAll f s xs).2 y).2) :=
  runAll_append f s xs [y]

@[simp] theorem runAll_length (f : σ → α → β × σ) (s : σ) (xs : List α) :
    (runAll f s xs).1.length = xs.length := by
  induction xs generalizing s with
  | nil => rfl
  | cons x xs ih => simp [runAll, ih]

/-- The output at a position is what the operation returns in the state that
the inputs before it lead to. -/
theorem runAll_getElem? (f : σ → α → β × σ) (s : σ) (xs : List α) (k : Nat) :
    (runAll f s xs).1[k]? = xs[k]?.map fun x => (f (runAll f s (xs.take k)).2 x).1 := by
  induction xs generalizing s k with
  | nil => rfl
  | cons x xs ih =>
      cases k with
      | zero => rfl
      | succ k => simpa [runAll] using ih (f s x).2 k

section Invariants

variable {step : σ → α → σ} {I : σ → Prop} {A P : σ → α → Prop}

/-- The property holds of every input in the state that the input meets. -/
def Throughout (step : σ → α → σ) (P : σ → α → Prop) : σ → List α → Prop
  | _, [] => True
  | s, a :: as => P s a ∧ Throughout step P (step s a) as

instance decidableThroughout (step : σ → α → σ) (P : σ → α → Prop) [∀ s a, Decidable (P s a)] :
    ∀ s as, Decidable (Throughout step P s as)
  | _, [] => inferInstanceAs (Decidable True)
  | s, a :: as =>
      have := decidableThroughout step P (step s a) as
      inferInstanceAs (Decidable (P s a ∧ Throughout step P (step s a) as))

/-- An invariant that the allowed inputs keep holds at the end of a run. -/
theorem invariant_run (hstep : ∀ s a, I s → A s a → I (step s a)) {s : σ} (hs : I s) {as : List α}
    (h : Throughout step A s as) : I (as.foldl step s) := by
  induction as generalizing s with
  | nil => exact hs
  | cons a as ih => exact ih (hstep s a hs h.1) h.2

/-- What the invariant promises of every allowed input holds all along the run. -/
theorem throughout_of_invariant (hstep : ∀ s a, I s → A s a → I (step s a))
    (hP : ∀ s a, I s → A s a → P s a) {s : σ} (hs : I s) {as : List α}
    (h : Throughout step A s as) : Throughout step P s as := by
  induction as generalizing s with
  | nil => trivial
  | cons a as ih => exact ⟨hP s a hs h.1, ih (hstep s a hs h.1) h.2⟩

/-- An invariant that every input keeps needs no condition on the run. -/
theorem throughout_always (hstep : ∀ s a, I s → I (step s a)) (hP : ∀ s a, I s → P s a) {s : σ}
    (hs : I s) {as : List α} : Throughout step P s as := by
  induction as generalizing s with
  | nil => trivial
  | cons a as ih => exact ⟨hP s a hs, ih (hstep s a hs)⟩

/-- Two properties that agree where the invariant holds, of which one keeps the
invariant, hold along the same runs. -/
theorem throughout_iff (hPA : ∀ s a, I s → (P s a ↔ A s a)) (hstep : ∀ s a, I s → P s a → I (step s a))
    {s : σ} (hs : I s) {as : List α} : Throughout step P s as ↔ Throughout step A s as := by
  induction as generalizing s with
  | nil => exact Iff.rfl
  | cons a as ih =>
      constructor
      · rintro ⟨hP, hrest⟩
        exact ⟨(hPA s a hs).mp hP, (ih (hstep s a hs hP)).mp hrest⟩
      · rintro ⟨hA, hrest⟩
        have hP := (hPA s a hs).mpr hA
        exact ⟨hP, (ih (hstep s a hs hP)).mpr hrest⟩

theorem throughout_append {s : σ} {as bs : List α} :
    Throughout step P s (as ++ bs) ↔ Throughout step P s as ∧ Throughout step P (as.foldl step s) bs := by
  induction as generalizing s with
  | nil => exact ⟨fun h => ⟨trivial, h⟩, And.right⟩
  | cons a as ih =>
      rw [List.cons_append, List.foldl_cons, Throughout, Throughout, ih, and_assoc]

/-- Two properties hold along a run when both do. -/
theorem throughout_and {s : σ} {as : List α} :
    Throughout step (fun s a => A s a ∧ P s a) s as ↔ Throughout step A s as ∧ Throughout step P s as := by
  induction as generalizing s with
  | nil => exact ⟨fun _ => ⟨trivial, trivial⟩, fun _ => trivial⟩
  | cons a as ih =>
      constructor
      · rintro ⟨⟨hA, hP⟩, hrest⟩
        obtain ⟨hA', hP'⟩ := ih.mp hrest
        exact ⟨⟨hA, hA'⟩, hP, hP'⟩
      · rintro ⟨⟨hA, hA'⟩, hP, hP'⟩
        exact ⟨⟨hA, hP⟩, ih.mpr ⟨hA', hP'⟩⟩

/-- Under a condition on the run, two properties that agree where the invariant
and the condition hold, of which one keeps the invariant, hold along the same runs. -/
theorem throughout_iff_of {C : σ → α → Prop} (hPA : ∀ s a, I s → C s a → (P s a ↔ A s a))
    (hstep : ∀ s a, I s → C s a → P s a → I (step s a)) {s : σ} (hs : I s) {as : List α}
    (hC : Throughout step C s as) : Throughout step P s as ↔ Throughout step A s as := by
  induction as generalizing s with
  | nil => exact Iff.rfl
  | cons a as ih =>
      constructor
      · rintro ⟨hP, hrest⟩
        exact ⟨(hPA s a hs hC.1).mp hP, (ih (hstep s a hs hC.1 hP) hC.2).mp hrest⟩
      · rintro ⟨hA, hrest⟩
        have hP := (hPA s a hs hC.1).mpr hA
        exact ⟨hP, (ih (hstep s a hs hC.1 hP) hC.2).mpr hrest⟩

end Invariants

end NixiSbc.StateRuns

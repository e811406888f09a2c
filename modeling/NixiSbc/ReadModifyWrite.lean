import Mathlib.Data.List.Nodup
import Mathlib.Logic.Function.Basic
import NixiSbc.StateRuns

namespace NixiSbc.ReadModifyWrite

open StateRuns

variable {ι σ ε : Type}

/-- How far a process is that reads a cell, works on what it read, and writes the cell. -/
inductive Phase (σ ε : Type)
  | idle
  | read (seen : σ)
  | done (written : σ)
  | failed (error : ε)

structure Cfg (ι σ ε : Type) where
  cell : σ
  phase : ι → Phase σ ε

inductive Action (ι : Type)
  | read (i : ι)
  | write (i : ι)

def start (cell : σ) : Cfg ι σ ε := ⟨cell, fun _ => .idle⟩

section

variable [DecidableEq ι] (f : ι → σ → Except ε σ)

def step (c : Cfg ι σ ε) : Action ι → Cfg ι σ ε
  | .read i =>
      match c.phase i with
      | .idle => { c with phase := Function.update c.phase i (.read c.cell) }
      | _ => c
  | .write i =>
      match c.phase i with
      | .read seen =>
          match f i seen with
          | .ok written => ⟨written, Function.update c.phase i (.done written)⟩
          | .error e => { c with phase := Function.update c.phase i (.failed e) }
      | _ => c

def Done (c : Cfg ι σ ε) (i : ι) : Prop := ∃ written, c.phase i = .done written

/-- A write finds the cell as its process read it. -/
def Undisturbed (c : Cfg ι σ ε) : Action ι → Prop
  | .read _ => True
  | .write i => ∀ seen written, c.phase i = .read seen → f i seen = .ok written → c.cell = seen

end

/-- One process after the other. -/
def sequential (f : ι → σ → Except ε σ) (order : List ι) (cell : σ) : Except ε σ :=
  order.foldlM (fun v i => f i v) cell

variable {f : ι → σ → Except ε σ} {c : Cfg ι σ ε} {cell : σ}

theorem sequential_concat (order : List ι) (i : ι) (cell : σ) :
    sequential f (order ++ [i]) cell = (sequential f order cell).bind (f i) := by
  rw [sequential, List.foldlM_append, sequential]
  cases order.foldlM (fun v i => f i v) cell with
  | error e => rfl
  | ok v =>
      change (f i v).bind _ = f i v
      cases f i v <;> rfl

variable [DecidableEq ι]

/-- What the processes have done so far they could have done one after the other. -/
def Serial (f : ι → σ → Except ε σ) (cell : σ) (c : Cfg ι σ ε) : Prop :=
  ∃ order : List ι, order.Nodup ∧ (∀ i, i ∈ order ↔ Done c i) ∧ sequential f order cell = .ok c.cell

theorem done_update {i j : ι} {phase : Phase σ ε} (hdone : ∀ w, phase ≠ .done w) (h : ¬Done c i) :
    Done { c with phase := Function.update c.phase i phase } j ↔ Done c j := by
  by_cases hj : j = i
  · subst hj
    rw [Done, Done]
    simp only [Function.update_self]
    exact iff_of_false (fun ⟨w, hw⟩ => hdone w hw) h
  · rw [Done, Done]
    simp only [Function.update_of_ne hj]

theorem Serial.step (h : Serial f cell c) (a : Action ι) (ha : Undisturbed f c a) : Serial f cell (step f c a) := by
  obtain ⟨order, hnodup, hdone, hcell⟩ := h
  cases a with
  | read i =>
      rw [ReadModifyWrite.step]
      split
      next hidle =>
        have hno : ¬Done c i := fun ⟨w, hw⟩ => by
          rw [hidle] at hw
          cases hw
        refine ⟨order, hnodup, fun j => (hdone j).trans (done_update (fun w h => ?_) hno).symm, hcell⟩
        cases h
      next => exact ⟨order, hnodup, hdone, hcell⟩
  | write i =>
      rw [ReadModifyWrite.step]
      split
      next seen hread =>
        have hno : ¬Done c i := fun ⟨w, hw⟩ => by
          rw [hread] at hw
          cases hw
        split
        next written hok =>
          refine ⟨order ++ [i], ?_, fun j => ?_, ?_⟩
          · exact hnodup.append (List.nodup_singleton i) (List.disjoint_singleton.mpr fun hi => hno ((hdone i).mp hi))
          · by_cases hj : j = i
            · subst hj
              refine iff_of_true (List.mem_append_right _ (List.mem_singleton_self j)) ⟨written, ?_⟩
              exact Function.update_self _ _ _
            · rw [List.mem_append, List.mem_singleton, or_iff_left hj, hdone, Done, Done]
              simp only [Function.update_of_ne hj]
          · rw [sequential_concat, hcell, ha seen written hread hok]
            exact hok
        next e _ =>
          refine ⟨order, hnodup, fun j => (hdone j).trans (done_update (fun w h => ?_) hno).symm, hcell⟩
          cases h
      next => exact ⟨order, hnodup, hdone, hcell⟩

/-- A run without disturbed writes has the effect of its writes one after the other. -/
theorem serial_run {actions : List (Action ι)} (h : Throughout (step f) (Undisturbed f) (start cell) actions) :
    Serial f cell (actions.foldl (step f) (start cell)) := by
  refine invariant_run (fun c a hc ha => hc.step a ha) ⟨[], List.nodup_nil, fun i => ?_, rfl⟩ h
  refine iff_of_false List.not_mem_nil ?_
  rintro ⟨w, hw⟩
  cases hw

end NixiSbc.ReadModifyWrite

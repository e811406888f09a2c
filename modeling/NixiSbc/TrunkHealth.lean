import Mathlib
import NixiSbc.Bans
import NixiSbc.Trunks

namespace NixiSbc.TrunkHealth

open Trunks
open Bans (second)

section Updates

/-- The counters of a trunk, with the number of its failed calls. -/
structure HealthState extends TrunkState where
  failedCalls : UInt64
  deriving DecidableEq

def HealthState.new (id : TrunkId) : HealthState := ⟨.new id, 0⟩

inductive Health
  | up
  | degraded
  | down
  | parked
  deriving DecidableEq

/-- How long the trunk is still skipped, by the cooldown or the park that runs longer. -/
def unavailableFor (s : TrunkState) (now : Nat) : Option Nat :=
  (((s.disabledUntil.toList ++ s.parkedUntil.toList).filter (now < ·)).map (· - now)).max?

def healthLabel (s : TrunkState) (now : Nat) : Health :=
  if s.parkedUntil.any (now < ·) then .parked
  else if s.disabledUntil.any (now < ·) then .down
  else if s.consecutiveFailures > 0 then .degraded
  else .up

def recordSuccess (s : HealthState) : HealthState := { s with consecutiveFailures := 0, disabledUntil := none }

/-- The operator forgives everything, the park included. -/
def forgive (s : HealthState) : HealthState := { s with toTrunkState := clearCooldowns s.toTrunkState }

def cooldownSecs (failures : UInt32) : Nat :=
  if failures ≤ 2 then 0
  else if failures ≤ 5 then 30
  else if failures ≤ 9 then 120
  else 300

def recordTrunkFailure (now : Nat) (s : HealthState) : HealthState :=
  let failures := s.consecutiveFailures + 1
  { s with
    failedCalls := s.failedCalls + 1
    consecutiveFailures := failures
    disabledUntil :=
      if 0 < cooldownSecs failures then some (now + cooldownSecs failures * second) else s.disabledUntil }

/-- A longer park that runs is kept. -/
def longer (end_ : Nat) : Option Nat → Nat
  | some current => if current > end_ then current else end_
  | none => end_

def parkFor (now secs : Nat) (s : HealthState) : HealthState :=
  { s with
    failedCalls := s.failedCalls + 1
    consecutiveFailures := s.consecutiveFailures + 1
    parkedUntil := some (longer (now + secs * second) s.parkedUntil) }

end Updates

section Latest

/-- The last of a set of times, if there are any. -/
def Latest (ends : Set Nat) : Option Nat → Prop
  | none => ends = ∅
  | some end_ => IsGreatest ends end_

variable {ends parks : Set Nat} {o o' : Option Nat} {end_ : Nat}

theorem Latest.eq_some_iff (h : Latest ends o) : o = some end_ ↔ IsGreatest ends end_ := by
  cases o with
  | none =>
      constructor
      · intro heq
        cases heq
      · intro hgreatest
        have hmem := hgreatest.1
        rw [h] at hmem
        exact absurd hmem (Set.notMem_empty end_)
  | some e =>
      rw [Option.some.injEq]
      constructor
      · rintro rfl
        exact h
      · exact h.unique

theorem Latest.eq_none_iff (h : Latest ends o) : o = none ↔ ends = ∅ := by
  cases o with
  | none => exact iff_of_true rfl h
  | some e => exact iff_of_false (Option.some_ne_none e) fun hempty => Set.notMem_empty e (hempty ▸ h.1)

theorem Latest.insert (h : Latest ends o) (e : Nat) : Latest (insert e ends) (some (longer e o)) := by
  cases o with
  | none =>
      change IsGreatest _ _
      rw [h]
      exact ⟨Set.mem_insert _ _, fun x hx => (hx.resolve_right (Set.notMem_empty x)).le⟩
  | some current =>
      have hmax : longer e (some current) = max e current := by
        rw [longer]
        split_ifs with hlt
        · exact (max_eq_right hlt.le).symm
        · exact (max_eq_left (Nat.le_of_not_lt hlt)).symm
      rw [hmax]
      exact IsGreatest.insert e h

def latest : Option Nat → Option Nat → Option Nat
  | some e, some e' => some (max e e')
  | some e, none => some e
  | none, o => o

theorem Latest.union (h : Latest ends o) (h' : Latest parks o') : Latest (ends ∪ parks) (latest o o') := by
  cases o with
  | none =>
      change ends = ∅ at h
      rw [h, Set.empty_union]
      exact h'
  | some e =>
      cases o' with
      | none =>
          change parks = ∅ at h'
          rw [h', Set.union_empty]
          exact h
      | some e' => exact IsGreatest.union h h'

/-- The last of both decides how long the trunk is skipped. -/
theorem unavailableFor_eq (s : TrunkState) (now : Nat) :
    unavailableFor s now =
      (latest s.disabledUntil s.parkedUntil).bind fun e => if now < e then some (e - now) else none := by
  rw [unavailableFor]
  generalize s.disabledUntil = o
  generalize s.parkedUntil = o'
  cases o with
  | none =>
      cases o' with
      | none => rfl
      | some e' => by_cases h' : now < e' <;> simp [latest, h']
  | some e =>
      cases o' with
      | none => by_cases h : now < e <;> simp [latest, h]
      | some e' =>
          by_cases h : now < e <;> by_cases h' : now < e' <;> simp [latest, h, h'] <;> omega

end Latest

section Histories

/-- What happens to the health of a trunk. -/
inductive Update
  | failure (now : Nat)
  | park (now secs : Nat)
  | success
  | forgive

def apply (s : HealthState) : Update → HealthState
  | .failure now => recordTrunkFailure now s
  | .park now secs => parkFor now secs s
  | .success => recordSuccess s
  | .forgive => TrunkHealth.forgive s

/-- The state after a history, its last update first. -/
def after (id : TrunkId) : List Update → HealthState
  | [] => .new id
  | u :: history => apply (after id history) u

def Update.failed : Update → Bool
  | .failure _ | .park _ _ => true
  | .success | .forgive => false

/-- The failures since the last success. -/
def streak (history : List Update) : Nat := (history.takeWhile Update.failed).length

def ladder (failures : Nat) : Nat :=
  if failures ≤ 2 then 0
  else if failures ≤ 5 then 30
  else if failures ≤ 9 then 120
  else 300

/-- The end of the cooldown: the last failure of three or more without a success between or since sets it. -/
inductive Cooldown : List Update → Nat → Prop
  | set {now : Nat} {history : List Update} : 0 < ladder (streak history + 1) →
      Cooldown (.failure now :: history) (now + ladder (streak history + 1) * second)
  | parked {now secs end_ : Nat} {history : List Update} : Cooldown history end_ →
      Cooldown (.park now secs :: history) end_

/-- The end of a park that nobody has forgiven. -/
inductive Park : List Update → Nat → Prop
  | asked {now secs : Nat} {history : List Update} : Park (.park now secs :: history) (now + secs * second)
  | earlier {u : Update} {end_ : Nat} {history : List Update} : u ≠ .forgive → Park history end_ →
      Park (u :: history) end_

def Pause (history : List Update) (end_ : Nat) : Prop := Cooldown history end_ ∨ Park history end_

variable (id : TrunkId) {history : List Update} {end_ now : Nat} {ends parks : Set Nat}

theorem streak_cons (u : Update) : streak (u :: history) = if u.failed then streak history + 1 else 0 := by
  rw [streak, List.takeWhile_cons]
  split_ifs <;> rfl

theorem streak_le : streak history ≤ history.length := (List.takeWhile_prefix _).length_le

theorem consecutiveFailures_after (h : history.length < 2 ^ 32) :
    (after id history).consecutiveFailures.toNat = streak history := by
  induction history with
  | nil => rfl
  | cons u history ih =>
      rw [List.length_cons] at h
      have hbefore := ih (Nat.lt_of_succ_lt h)
      have hle : streak history ≤ history.length := streak_le
      have hsucc : ((after id history).consecutiveFailures + 1).toNat = streak history + 1 := by
        rw [UInt32.toNat_add, hbefore]
        exact Nat.mod_eq_of_lt (by rw [UInt32.toNat_one]; omega)
      rw [streak_cons]
      cases u with
      | failure now => exact hsucc
      | park now secs => exact hsucc
      | success => rfl
      | forgive => rfl

theorem cooldownSecs_eq (failures : UInt32) : cooldownSecs failures = ladder failures.toNat := by
  simp only [cooldownSecs, ladder, UInt32.le_iff_toNat_le]
  rfl

theorem failures_succ (h : history.length + 1 < 2 ^ 32) :
    ((after id history).consecutiveFailures + 1).toNat = streak history + 1 := by
  have hpark : (Update.park 0 0 :: history).length < 2 ^ 32 := h
  exact consecutiveFailures_after id hpark

theorem ladder_eq_zero {failures : Nat} : ladder failures = 0 ↔ failures ≤ 2 := by
  simp only [ladder]
  split_ifs <;> simp <;> omega

/-- Without three failures in a row there is no cooldown. -/
theorem disabledUntil_eq_none (h : history.length < 2 ^ 32) (hfew : streak history ≤ 2) :
    (after id history).disabledUntil = none := by
  induction history with
  | nil => rfl
  | cons u history ih =>
      rw [List.length_cons] at h
      rw [streak_cons] at hfew
      cases u with
      | failure now =>
          have hfew : streak history + 1 ≤ 2 := hfew
          have hzero : cooldownSecs ((after id history).consecutiveFailures + 1) = 0 := by
            rw [cooldownSecs_eq, failures_succ id h]
            exact ladder_eq_zero.mpr hfew
          change (if 0 < cooldownSecs ((after id history).consecutiveFailures + 1) then _ else _) = _
          rw [hzero, if_neg (Nat.lt_irrefl 0)]
          exact ih (Nat.lt_of_succ_lt h) (Nat.le_of_succ_le hfew)
      | park now secs =>
          have hfew : streak history + 1 ≤ 2 := hfew
          exact ih (Nat.lt_of_succ_lt h) (Nat.le_of_succ_le hfew)
      | success => rfl
      | forgive => rfl

/-- The cooldown ends where the last failure that counts has put it. -/
theorem disabledUntil_after (h : history.length < 2 ^ 32) :
    (after id history).disabledUntil = some end_ ↔ Cooldown history end_ := by
  induction history with
  | nil =>
      constructor
      · intro heq
        cases heq
      · intro hcool
        cases hcool
  | cons u history ih =>
      rw [List.length_cons] at h
      have hbefore := ih (Nat.lt_of_succ_lt h)
      cases u with
      | failure now =>
          have hsecs : cooldownSecs ((after id history).consecutiveFailures + 1) = ladder (streak history + 1) := by
            rw [cooldownSecs_eq, failures_succ id h]
          change (if 0 < cooldownSecs ((after id history).consecutiveFailures + 1) then
            some (now + cooldownSecs ((after id history).consecutiveFailures + 1) * second) else _) = _ ↔ _
          rw [hsecs]
          split_ifs with hset
          · constructor
            · intro heq
              cases heq
              exact .set hset
            · intro hcool
              cases hcool
              rfl
          · have hfew : streak history + 1 ≤ 2 := ladder_eq_zero.mp (Nat.eq_zero_of_not_pos hset)
            change (after id history).disabledUntil = _ ↔ _
            rw [disabledUntil_eq_none id (Nat.lt_of_succ_lt h) (Nat.le_of_succ_le hfew)]
            constructor
            · intro heq
              cases heq
            · intro hcool
              cases hcool
              contradiction
      | park now secs =>
          refine hbefore.trans ⟨.parked, fun hcool => ?_⟩
          cases hcool
          assumption
      | success =>
          constructor
          · intro heq
            cases heq
          · intro hcool
            cases hcool
      | forgive =>
          constructor
          · intro heq
            cases heq
          · intro hcool
            cases hcool

theorem park_cons {u : Update} (hu : u ≠ .forgive) (hnot : ∀ now secs, u ≠ .park now secs) :
    {e | Park (u :: history) e} = {e | Park history e} := by
  ext e
  constructor
  · intro hpark
    cases hpark with
    | asked => exact absurd rfl (hnot _ _)
    | earlier _ hpark => exact hpark
  · exact .earlier hu

theorem park_park (now secs : Nat) :
    {e | Park (.park now secs :: history) e} = insert (now + secs * second) {e | Park history e} := by
  ext e
  constructor
  · intro hpark
    cases hpark with
    | asked => exact .inl rfl
    | earlier _ hpark => exact .inr hpark
  · rintro (rfl | hpark)
    · exact .asked
    · exact .earlier Update.noConfusion hpark

/-- The park that is kept ends last. -/
theorem latest_park : Latest {e | Park history e} (after id history).parkedUntil := by
  induction history with
  | nil =>
      apply Set.eq_empty_of_forall_notMem
      intro e hpark
      cases hpark
  | cons u history ih =>
      cases u with
      | failure now =>
          rw [park_cons Update.noConfusion fun _ _ => Update.noConfusion]
          exact ih
      | park now secs =>
          rw [park_park]
          exact ih.insert _
      | success =>
          rw [park_cons Update.noConfusion fun _ _ => Update.noConfusion]
          exact ih
      | forgive =>
          apply Set.eq_empty_of_forall_notMem
          intro e hpark
          cases hpark
          contradiction

theorem latest_cooldown (h : history.length < 2 ^ 32) :
    Latest {e | Cooldown history e} (after id history).disabledUntil := by
  cases hold : (after id history).disabledUntil with
  | none =>
      apply Set.eq_empty_of_forall_notMem
      intro e hcool
      rw [(disabledUntil_after id h).mpr hcool] at hold
      cases hold
  | some e =>
      refine ⟨(disabledUntil_after id h).mp hold, fun e' hcool => ?_⟩
      rw [(disabledUntil_after id h).mpr hcool] at hold
      exact (Option.some.inj hold).le

theorem latest_pause (h : history.length < 2 ^ 32) :
    Latest {e | Pause history e} (latest (after id history).disabledUntil (after id history).parkedUntil) :=
  (latest_cooldown id h).union (latest_park id)

/-- The state of a trunk, as its history tells it. -/
def Describes (history : List Update) (now : Nat) : Health → Prop
  | .parked => ∃ e, Park history e ∧ now < e
  | .down => (∀ e, Park history e → e ≤ now) ∧ ∃ e, Cooldown history e ∧ now < e
  | .degraded => (∀ e, Pause history e → e ≤ now) ∧ 0 < streak history
  | .up => (∀ e, Pause history e → e ≤ now) ∧ streak history = 0

theorem Latest.any_iff {o : Option Nat} (now : Nat) (h : Latest ends o) :
    o.any (now < ·) = true ↔ ∃ e, e ∈ ends ∧ now < e := by
  cases o with
  | none =>
      change ends = ∅ at h
      simp [h]
  | some last =>
      rw [Option.any_some, decide_eq_true_iff]
      constructor
      · exact fun hlt => ⟨last, h.1, hlt⟩
      · rintro ⟨e, he, hlt⟩
        exact hlt.trans_le (h.2 he)

theorem not_running {o : Option Nat} (h : Latest ends o) (hnot : ¬ o.any (now < ·) = true) :
    ∀ e ∈ ends, e ≤ now := by
  intro e he
  by_contra hlt
  exact hnot ((h.any_iff now).mpr ⟨e, he, Nat.lt_of_not_le hlt⟩)

theorem describes_healthLabel (h : history.length < 2 ^ 32) :
    Describes history now (healthLabel (after id history).toTrunkState now) := by
  have hpark : Latest {e | Park history e} (after id history).parkedUntil := latest_park id
  have hcool := latest_cooldown id h
  have hfailures := consecutiveFailures_after id h
  rw [healthLabel]
  split_ifs with hparked hdown hdegraded
  · exact (hpark.any_iff now).mp hparked
  · exact ⟨not_running hpark hparked, (hcool.any_iff now).mp hdown⟩
  · refine ⟨fun e he => he.elim (not_running hcool hdown e) (not_running hpark hparked e), ?_⟩
    rw [← hfailures]
    exact UInt32.lt_iff_toNat_lt.mp hdegraded
  · refine ⟨fun e he => he.elim (not_running hcool hdown e) (not_running hpark hparked e), ?_⟩
    rw [← hfailures]
    exact Nat.eq_zero_of_not_pos fun hpos => hdegraded (UInt32.lt_iff_toNat_lt.mpr hpos)

theorem failedCalls_after (h : history.length < 2 ^ 64) :
    (after id history).failedCalls.toNat = history.countP Update.failed := by
  induction history with
  | nil => rfl
  | cons u history ih =>
      rw [List.length_cons] at h
      have hbefore := ih (Nat.lt_of_succ_lt h)
      have hle : history.countP Update.failed ≤ history.length := List.countP_le_length
      have hsucc : ((after id history).failedCalls + 1).toNat = history.countP Update.failed + 1 := by
        rw [UInt64.toNat_add, hbefore]
        exact Nat.mod_eq_of_lt (by rw [UInt64.toNat_one]; omega)
      rw [List.countP_cons]
      cases u with
      | failure now => exact hsucc
      | park now secs => exact hsucc
      | success => exact hbefore
      | forgive => exact hbefore

/-- The health of a trunk is what its history says: its label, how long it is skipped, and its failures. -/
theorem health_of_history (h : history.length < 2 ^ 32) (now : Nat) :
    Describes history now (healthLabel (after id history).toTrunkState now) ∧
    (∀ left, unavailableFor (after id history).toTrunkState now = some left ↔
      0 < left ∧ IsGreatest {e | Pause history e} (now + left)) ∧
    (after id history).failedCalls.toNat = history.countP Update.failed := by
  refine ⟨describes_healthLabel id h, fun left => ?_, failedCalls_after id (h.trans (by decide))⟩
  have hlast := latest_pause id h
  rw [unavailableFor_eq, ← hlast.eq_some_iff]
  cases latest (after id history).disabledUntil (after id history).parkedUntil with
  | none =>
      constructor
      · intro heq
        cases heq
      · intro heq
        cases heq.2
  | some e =>
      rw [Option.bind_some, Option.some.injEq]
      split_ifs with hlt
      · rw [Option.some.injEq]
        omega
      · constructor
        · intro heq
          cases heq
        · omega

theorem health_of_failures :
    Describes [.failure 7, .failure 5, .failure 3] 7
      (healthLabel (after 0 [.failure 7, .failure 5, .failure 3]).toTrunkState 7) ∧
    (∀ left, unavailableFor (after 0 [.failure 7, .failure 5, .failure 3]).toTrunkState 7 = some left ↔
      0 < left ∧ IsGreatest {e | Pause [.failure 7, .failure 5, .failure 3] e} (7 + left)) ∧
    (after 0 [.failure 7, .failure 5, .failure 3]).failedCalls.toNat =
      [Update.failure 7, .failure 5, .failure 3].countP Update.failed :=
  health_of_history 0 (by decide) 7

end Histories

end NixiSbc.TrunkHealth

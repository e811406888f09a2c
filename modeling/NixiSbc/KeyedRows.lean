import Mathlib.Data.List.Nodup
import Mathlib.Data.List.Sort
import Mathlib.Logic.Function.Basic

namespace NixiSbc.KeyedRows

variable {K R S : Type} [DecidableEq K] (key : R → K)

/-- The first row with the key of `r` is changed. Where there is none, `r` is added. -/
def upsert (alter : R → R) (r : R) : List R → List R
  | [] => [r]
  | x :: rows => if key x = key r then alter x :: rows else x :: upsert alter r rows

/-- A row takes the place of the one with its key. -/
def put (r : R) (rows : List R) : List R := upsert key (fun _ => r) r rows

def putAll (l rows : List R) : List R := l.foldl (fun rows r => put key r rows) rows

def lookup (k : K) (rows : List R) : Option R := rows.find? (key · = k)

/-- How many rows are new when they are put one after the other. -/
def newRows : List R → List R → Nat
  | [], _ => 0
  | r :: l, rows => (if key r ∈ rows.map key then 0 else 1) + newRows l (put key r rows)

def sortBy {κ : Type} [LinearOrder κ] (f : R → κ) (rows : List R) : List R :=
  rows.mergeSort fun x y => f x ≤ f y

variable {key} {k : K} {r : R} {l rows rows' : List R}

theorem put_cons (x : R) : put key r (x :: rows) = if key x = key r then r :: rows else x :: put key r rows := rfl

section Keys

theorem keys_put :
    (put key r rows).map key = if key r ∈ rows.map key then rows.map key else rows.map key ++ [key r] := by
  induction rows with
  | nil => rfl
  | cons x rows ih =>
      rw [put_cons, List.map_cons]
      by_cases hx : key x = key r
      · simp [hx]
      · rw [if_neg hx, List.map_cons, ih]
        by_cases hr : key r ∈ rows.map key
        · rw [if_pos hr, if_pos (List.mem_cons_of_mem _ hr)]
        · rw [if_neg hr, if_neg (by simp [Ne.symm hx, hr] : key r ∉ key x :: rows.map key), List.cons_append]

theorem mem_keys_put : k ∈ (put key r rows).map key ↔ k = key r ∨ k ∈ rows.map key := by
  rw [keys_put]
  split_ifs with h
  · exact ⟨.inr, fun hk => hk.elim (fun heq => heq ▸ h) id⟩
  · rw [List.mem_append, List.mem_singleton, or_comm]

end Keys

section Lookups

theorem key_of_lookup (h : lookup key k rows = some r) : key r = k :=
  of_decide_eq_true (List.find?_some (p := (key · = k)) h)

theorem lookup_eq_none : lookup key k rows = none ↔ k ∉ rows.map key := by
  simp [lookup, List.find?_eq_none]

end Lookups

section Replacing

end Replacing

section Writes

variable {V : Type} {writes writes' : List (K × (V → V))} {s : K → V}

/-- Each write changes what stands under its key. -/
def write (writes : List (K × (V → V))) (s : K → V) : K → V :=
  writes.foldl (fun s p => Function.update s p.1 (p.2 (s p.1))) s

@[simp] theorem write_nil : write ([] : List (K × (V → V))) s = s := rfl

@[simp] theorem write_cons (p : K × (V → V)) : write (p :: writes) s = write writes (Function.update s p.1 (p.2 (s p.1))) := rfl

theorem write_append : write (writes ++ writes') s = write writes' (write writes s) := List.foldl_append

end Writes

section Sorting

variable {κ : Type} [LinearOrder κ] {f : R → κ}

end Sorting

end NixiSbc.KeyedRows

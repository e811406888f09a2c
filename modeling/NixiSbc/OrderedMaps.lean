import Mathlib.Data.List.Induction
import Mathlib.Data.List.Sort

namespace NixiSbc.OrderedMaps

section

variable {K α : Type} [LinearOrder K]

/-- A map is kept as its entries, in the order of their keys. -/
def Sorted (m : List (K × α)) : Prop := (m.map (·.1)).Pairwise (· < ·)

instance (m : List (K × α)) : Decidable (Sorted m) :=
  inferInstanceAs (Decidable ((m.map (·.1)).Pairwise (· < ·)))

def get? (k : K) : List (K × α) → Option α
  | [] => none
  | e :: m => if k = e.1 then some e.2 else get? k m

def insert (k : K) (x : α) : List (K × α) → List (K × α)
  | [] => [(k, x)]
  | e :: m =>
      if k < e.1 then (k, x) :: e :: m
      else if k = e.1 then (k, x) :: m
      else e :: insert k x m

/-- Entries that come later replace earlier ones. -/
def ofList (l : List (K × α)) : List (K × α) := l.foldl (fun m e => insert e.1 e.2 m) []

end

variable {K α : Type} [LinearOrder K] {j k : K} {x : α} {m l l' : List (K × α)}

@[simp] theorem get?_nil : get? k ([] : List (K × α)) = none := rfl

theorem get?_cons (e : K × α) : get? k (e :: m) = if k = e.1 then some e.2 else get? k m := rfl

theorem get?_eq_none : get? k m = none ↔ k ∉ m.map (·.1) := by
  induction m with
  | nil => simp
  | cons e m ih =>
      rw [get?_cons, List.map_cons, List.mem_cons, not_or, ← ih]
      split_ifs with h <;> simp [h]

section Inserting

@[simp] theorem insert_nil : insert k x [] = [(k, x)] := rfl

theorem insert_cons (e : K × α) :
    insert k x (e :: m) =
      if k < e.1 then (k, x) :: e :: m
      else if k = e.1 then (k, x) :: m
      else e :: insert k x m := rfl

theorem mem_keys_insert : j ∈ (insert k x m).map (·.1) ↔ j = k ∨ j ∈ m.map (·.1) := by
  induction m with
  | nil => simp
  | cons e m ih =>
      rw [insert_cons]
      split_ifs with hlt heq
      · simp
      · simp [heq]
      · simp only [List.map_cons, List.mem_cons, ih]
        tauto

theorem get?_insert : get? j (insert k x m) = if j = k then some x else get? j m := by
  induction m with
  | nil => rfl
  | cons e m ih =>
      rw [insert_cons]
      by_cases hlt : k < e.1
      · rw [if_pos hlt]
        rfl
      · by_cases heq : k = e.1
        · rw [if_neg hlt, if_pos heq, get?_cons, get?_cons, ← heq]
          split_ifs <;> rfl
        · rw [if_neg hlt, if_neg heq, get?_cons, get?_cons, ih]
          by_cases hjk : j = k
          · rw [if_pos hjk, hjk, if_neg heq, if_pos rfl]
          · rw [if_neg hjk, if_neg hjk]

theorem Sorted.insert (h : Sorted m) : Sorted (insert k x m) := by
  induction m with
  | nil => exact List.pairwise_singleton _ _
  | cons e m ih =>
      obtain ⟨hhead, htail⟩ := List.pairwise_cons.mp h
      rw [insert_cons]
      split_ifs with hlt heq
      · refine List.pairwise_cons.mpr ⟨?_, h⟩
        intro j hj
        rcases List.mem_cons.mp hj with rfl | hj
        · exact hlt
        · exact hlt.trans (hhead j hj)
      · rw [Sorted, List.map_cons, heq]
        exact h
      · refine List.pairwise_cons.mpr ⟨?_, ih htail⟩
        intro j hj
        rcases mem_keys_insert.mp hj with rfl | hj
        · exact lt_of_le_of_ne (not_lt.mp hlt) (Ne.symm heq)
        · exact hhead j hj

/-- Where the key has an entry, that entry is replaced. -/
theorem insert_of_split {front back : List (K × α)} {y : α} (h : Sorted (front ++ (k, y) :: back)) :
    insert k x (front ++ (k, y) :: back) = front ++ (k, x) :: back := by
  induction front with
  | nil => simp [insert_cons]
  | cons e front ih =>
      obtain ⟨hhead, htail⟩ := List.pairwise_cons.mp h
      have hek : e.1 < k := hhead k (by simp)
      rw [List.cons_append, insert_cons, if_neg hek.not_gt, if_neg hek.ne', ih htail, List.cons_append]

theorem get?_of_split {front back : List (K × α)} {y : α} (h : Sorted (front ++ (k, y) :: back)) :
    get? k (front ++ (k, y) :: back) = some y := by
  induction front with
  | nil => simp [get?_cons]
  | cons e front ih =>
      obtain ⟨hhead, htail⟩ := List.pairwise_cons.mp h
      have hek : e.1 < k := hhead k (by simp)
      rw [List.cons_append, get?_cons, if_neg hek.ne', ih htail]

end Inserting

section Collecting

theorem ofList_append_singleton (l : List (K × α)) (e : K × α) : ofList (l ++ [e]) = insert e.1 e.2 (ofList l) :=
  List.foldl_concat ..

theorem sorted_ofList (l : List (K × α)) : Sorted (ofList l) := by
  induction l using List.reverseRecOn with
  | nil => exact List.Pairwise.nil
  | append_singleton l e ih =>
      rw [ofList_append_singleton]
      exact ih.insert

theorem mem_keys_ofList : k ∈ (ofList l).map (·.1) ↔ k ∈ l.map (·.1) := by
  induction l using List.reverseRecOn with
  | nil => rfl
  | append_singleton l e ih =>
      rw [ofList_append_singleton, mem_keys_insert, ih, List.map_append, List.mem_append, or_comm]
      simp

/-- The value of a key is that of its last entry. -/
theorem get?_ofList : get? k (ofList l) = (l.filter (·.1 = k)).getLast?.map (·.2) := by
  induction l using List.reverseRecOn with
  | nil => rfl
  | append_singleton l e ih =>
      rw [ofList_append_singleton, get?_insert, ih, List.filter_append]
      by_cases h : k = e.1
      · simp [h]
      · simp [h, Ne.symm h]

theorem get?_ofList_congr [DecidablePred fun e : K × α => e.1 = k]
    (h : (l.filter fun e => e.1 = k) = l'.filter fun e => e.1 = k) : get? k (ofList l) = get? k (ofList l') := by
  rw [get?_ofList, get?_ofList]
  convert congrArg (fun m => m.getLast?.map (·.2)) h

end Collecting

end NixiSbc.OrderedMaps

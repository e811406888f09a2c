import Mathlib.Data.List.Pairwise
import Mathlib.Data.List.Sort

namespace NixiSbc.TimeQueue

variable {span now later t : Nat} {q : List Nat}

/-- Pop the instants at the front that are more than `span` old. -/
def expire (span now : Nat) (q : List Nat) : List Nat := q.dropWhile fun t => span < now - t

/-- The instants that are at most `span` old, of a list in any order. -/
def recent (span now : Nat) (q : List Nat) : List Nat := q.filter fun t => now - t ≤ span

/-- No instant at all, or the newest is more than `span` old. -/
def idle (span now : Nat) (q : List Nat) : Bool := q.getLast?.all fun t => span < now - t

theorem mem_recent : t ∈ recent span now q ↔ t ∈ q ∧ now - t ≤ span := by
  simp [recent]

theorem recent_append (p : List Nat) :
    recent span now (p ++ q) = recent span now p ++ recent span now q :=
  List.filter_append p q

theorem recent_self : recent span now [now] = [now] := by
  simp [recent]

/-- An instant that is recent makes all newer ones recent. -/
theorem recent_eq_self (h : ∀ t ∈ q, now - t ≤ span) : recent span now q = q :=
  List.filter_eq_self.mpr fun t ht => decide_eq_true (h t ht)

theorem recent_eq_nil (h : ∀ t ∈ q, span < now - t) : recent span now q = [] :=
  List.filter_eq_nil_iff.mpr fun t ht hle => absurd (h t ht) (not_lt.mpr (of_decide_eq_true hle))

theorem expire_eq_recent (hq : q.Pairwise (· ≤ ·)) : expire span now q = recent span now q := by
  induction q with
  | nil => rfl
  | cons t q ih =>
      rw [List.pairwise_cons] at hq
      by_cases ht : span < now - t
      · have hpop : expire span now (t :: q) = expire span now q :=
          List.dropWhile_cons_of_pos (decide_eq_true ht)
        have hdrop : recent span now (t :: q) = recent span now q :=
          List.filter_cons_of_neg (by simp; omega)
        rw [hpop, hdrop, ih hq.2]
      · have hstop : expire span now (t :: q) = t :: q :=
          List.dropWhile_cons_of_neg (by simpa using ht)
        rw [hstop, recent_eq_self]
        intro t' ht'
        rcases List.mem_cons.mp ht' with rfl | ht'
        · omega
        · have := hq.1 t' ht'
          omega

theorem recent_recent (h : now ≤ later) :
    recent span later (recent span now q) = recent span later q := by
  rw [recent, recent, List.filter_filter]
  apply List.filter_congr
  intro t _
  rw [Bool.and_eq_left_iff_imp, decide_eq_true_eq, decide_eq_true_eq]
  omega

/-- An idle queue has nothing recent, now or later. -/
theorem recent_of_idle (hq : q.Pairwise (· ≤ ·)) (hidle : idle span now q = true)
    (h : now ≤ later) : recent span later q = [] := by
  apply recent_eq_nil
  intro t ht
  have hne : q ≠ [] := List.ne_nil_of_mem ht
  have hlast : span < now - q.getLast hne := by
    rw [idle, List.getLast?_eq_getLast_of_ne_nil hne] at hidle
    exact of_decide_eq_true hidle
  have hle : t ≤ q.getLast hne := hq.rel_getLast ht
  omega

theorem sorted_append_singleton (hq : q.Pairwise (· ≤ ·)) (h : ∀ t ∈ q, t ≤ now) :
    (q ++ [now]).Pairwise (· ≤ ·) := by
  refine List.pairwise_append.mpr ⟨hq, List.pairwise_singleton _ _, ?_⟩
  intro t ht t' ht'
  rw [List.mem_singleton.mp ht']
  exact h t ht

/-- The queue stands for a longer list of past instants: from now on it has the
same recent ones. -/
structure Follows (span now : Nat) (q all : List Nat) : Prop where
  sorted : q.Pairwise (· ≤ ·)
  past : ∀ t ∈ q, t ≤ now
  same : ∀ later, now ≤ later → recent span later q = recent span later all

namespace Follows

variable {all : List Nat}

theorem nil : Follows span now [] [] := ⟨.nil, List.forall_mem_nil _, fun _ _ => rfl⟩

theorem mono (h : Follows span now q all) (hle : now ≤ later) : Follows span later q all where
  sorted := h.sorted
  past t ht := (h.past t ht).trans hle
  same later' hle' := h.same later' (hle.trans hle')

theorem expire_eq (h : Follows span now q all) : expire span now q = recent span now all := by
  rw [expire_eq_recent h.sorted, h.same now le_rfl]

theorem expired (h : Follows span now q all) : Follows span now (expire span now q) all where
  sorted := h.sorted.sublist (List.dropWhile_sublist _)
  past t ht := h.past t ((List.dropWhile_sublist _).subset ht)
  same later hle := by rw [expire_eq_recent h.sorted, recent_recent hle, h.same later hle]

theorem push (h : Follows span now q all) : Follows span now (q ++ [now]) (all ++ [now]) where
  sorted := sorted_append_singleton h.sorted h.past
  past t ht := by
    rcases List.mem_append.mp ht with ht | ht
    · exact h.past t ht
    · exact (List.mem_singleton.mp ht).le
  same later hle := by rw [recent_append, recent_append, h.same later hle]

/-- An idle queue may be dropped. -/
theorem drop (h : Follows span now q all) (hidle : idle span now q = true) :
    Follows span now [] all where
  sorted := .nil
  past := List.forall_mem_nil _
  same later hle := by
    rw [← h.same later hle, recent_of_idle h.sorted hidle hle]
    rfl

end Follows

end NixiSbc.TimeQueue

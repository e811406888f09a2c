import Mathlib.Data.List.Nodup
import Mathlib.Data.List.Sort
import Mathlib.Order.Basic

namespace NixiSbc.KeysetPaging

variable {ρ κ : Type} [LinearOrder κ] {key : ρ → κ} {wanted : ρ → Prop} {table rows all : List ρ}
  {cursor : Option κ} {more : Bool} {n : Nat}

/-- The rows go down strictly. -/
def Descends (key : ρ → κ) (rows : List ρ) : Prop := rows.Pairwise fun a b => key b < key a

theorem Descends.nodup (h : Descends key rows) : rows.Nodup :=
  List.Pairwise.imp (fun hlt he => hlt.ne (congrArg key he.symm)) h

def Older (key : ρ → κ) (cursor : Option κ) (r : ρ) : Prop := ∀ k ∈ cursor, key r < k

/-- Of the rows that are wanted below the cursor a page is the first ones, and it
says whether there are more. -/
structure IsPage (key : ρ → κ) (wanted : ρ → Prop) (table : List ρ) (cursor : Option κ) (rows : List ρ)
    (more : Bool) : Prop where
  descends : Descends key rows
  sound : ∀ r ∈ rows, r ∈ table ∧ wanted r ∧ Older key cursor r
  complete : ∀ r ∈ table, wanted r → Older key cursor r → r ∉ rows → more = true ∧ ∀ x ∈ rows, key r < key x
  further : more = true → rows ≠ [] ∧ ∃ r ∈ table, wanted r ∧ Older key cursor r ∧ r ∉ rows

/-- A reader that follows the cursor of the last row. -/
structure Listing (ρ κ : Type) where
  cursor : Option κ
  listed : List ρ
  done : Bool

def Listing.new : Listing ρ κ := ⟨none, [], false⟩

def Listing.turn (key : ρ → κ) (l : Listing ρ κ) (rows : List ρ) (more : Bool) : Listing ρ κ where
  cursor := (rows.getLast?.map key).or l.cursor
  listed := l.listed ++ rows
  done := !more

variable {l : Listing ρ κ} {r : ρ}

/-- What is below the cursor is below all that is listed. -/
structure InOrder (key : ρ → κ) (wanted : ρ → Prop) (l : Listing ρ κ) : Prop where
  descends : Descends key l.listed
  below : ∀ x ∈ l.listed, ∀ r, Older key l.cursor r → key r < key x
  wanted : ∀ x ∈ l.listed, wanted x

/-- A row is listed, or is still to come. -/
def Accounted (key : ρ → κ) (l : Listing ρ κ) (r : ρ) : Prop :=
  r ∈ l.listed ∨ l.done = false ∧ Older key l.cursor r

theorem older_turn (h : Older key (l.turn key rows more).cursor r) (hrows : Descends key rows) :
    (rows = [] ∧ Older key l.cursor r) ∨ ∀ x ∈ rows, key r < key x := by
  rcases List.eq_nil_or_concat' rows with rfl | ⟨front, last, rfl⟩
  · exact .inl ⟨rfl, h⟩
  · right
    have hlast : key r < key last := h (key last) (by simp [Listing.turn])
    rw [Descends, List.pairwise_append] at hrows
    intro x hx
    rcases List.mem_append.mp hx with hx | hx
    · exact hlast.trans (hrows.2.2 x hx last List.mem_cons_self)
    · rwa [List.mem_singleton.mp hx]

theorem InOrder.turn (h : InOrder key wanted l) (hpage : IsPage key wanted table l.cursor rows more) :
    InOrder key wanted (l.turn key rows more) := by
  have hbelow : ∀ x ∈ l.listed, ∀ r ∈ rows, key r < key x := fun x hx r hr =>
    h.below x hx r (hpage.sound r hr).2.2
  refine ⟨List.pairwise_append.mpr ⟨h.descends, hpage.descends, hbelow⟩, fun x hx r hr => ?_, fun x hx => ?_⟩
  · rcases older_turn hr hpage.descends with ⟨rfl, hold⟩ | hrows
    · exact h.below x (by simpa [Listing.turn] using hx) r hold
    · rcases List.mem_append.mp hx with hlisted | hpaged
      · rcases rows with _ | ⟨y, rows⟩
        · exact h.below x hlisted r hr
        · exact (hrows y List.mem_cons_self).trans (hbelow x hlisted y List.mem_cons_self)
      · exact hrows x hpaged
  · rcases List.mem_append.mp hx with hx | hx
    · exact h.wanted x hx
    · exact (hpage.sound x hx).2.1

/-- A row that the table still has does not get lost over a page. -/
theorem Accounted.turn (h : Accounted key l r) (hpage : IsPage key wanted table l.cursor rows more)
    (ht : r ∈ table) (hw : wanted r) : Accounted key (l.turn key rows more) r := by
  rcases h with hlisted | ⟨-, hold⟩
  · exact .inl (List.mem_append_left rows hlisted)
  · by_cases hr : r ∈ rows
    · exact .inl (List.mem_append_right l.listed hr)
    · obtain ⟨rfl, hlower⟩ := hpage.complete r ht hw hold hr
      refine .inr ⟨rfl, fun k hk => ?_⟩
      cases hlast : rows.getLast? with
      | none => exact hold k (by simpa [Listing.turn, hlast] using hk)
      | some last =>
          have hke : key last = k := by simpa [Listing.turn, hlast] using hk
          rw [← hke]
          exact hlower last (List.mem_of_getLast? hlast)

theorem InOrder.count [DecidableEq ρ] (h : InOrder key wanted l) (hr : Accounted key l r) (hdone : l.done = true) :
    l.listed.count r = 1 := by
  rcases hr with hlisted | ⟨hmore, -⟩
  · exact List.count_eq_one_of_mem h.descends.nodup hlisted
  · rw [hdone] at hmore
    cases hmore

end NixiSbc.KeysetPaging

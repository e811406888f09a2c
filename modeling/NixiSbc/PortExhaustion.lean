import NixiSbc.PortAllocator

namespace NixiSbc.PortExhaustion

open Diagnostics PortAllocator

/-- Both ports of a pair are free. -/
def Free (allocated : Finset UInt16) (rtpPort : UInt16) : Prop := rtpPort ∉ allocated ∧ rtpPort + 1 ∉ allocated

instance (allocated : Finset UInt16) (rtpPort : UInt16) : Decidable (Free allocated rtpPort) :=
  inferInstanceAs (Decidable (_ ∧ _))

/-- An even port with the one after it, both in the range. -/
def InRange (cfg : Settings) (rtpPort : UInt16) : Prop :=
  rtpPort.toNat % 2 = 0 ∧ cfg.first.toNat ≤ rtpPort.toNat ∧ rtpPort.toNat + 1 < cfg.bound.toNat

def checkedAdd (a b : UInt16) : Option UInt16 := if a.toNat + b.toNat < 2 ^ 16 then some (a + b) else none

/-- The loop with arithmetic that stops where it would overflow, for so many rounds at most. -/
def loop (cfg : Settings) (allocated : Finset UInt16) (first start : UInt16) :
    Nat → UInt16 → Bool → Option (Option UInt16)
  | 0, _, _ => none
  | fuel + 1, rtpPort, wrapped =>
      match (checkedAdd rtpPort 1).filter (· < cfg.bound) with
      | none => if wrapped = true then some none else loop cfg allocated first start fuel first true
      | some rtcpPort =>
          if rtpPort ∉ allocated ∧ rtcpPort ∉ allocated then some (some rtpPort)
          else if wrapped = true ∧ rtpPort ≥ start then some none
          else (checkedAdd rtpPort 2).bind fun next => loop cfg allocated first start fuel next wrapped

section Loop

variable {cfg : Settings} {allocated : Finset UInt16} {first start rtpPort found : UInt16} {wrapped : Bool}

theorem checkedAdd_one : (checkedAdd rtpPort 1).filter (· < cfg.bound) =
    if pastEnd cfg rtpPort then none else some (rtpPort + 1) := by
  have hone : (1 : UInt16).toNat = 1 := rfl
  have hb := cfg.bound.toNat_lt
  rw [checkedAdd, hone]
  by_cases hend : pastEnd cfg rtpPort
  · rw [if_pos hend]
    by_cases hover : rtpPort.toNat + 1 < 2 ^ 16
    · have hge : cfg.bound ≤ rtpPort + 1 := hend.resolve_left (by omega)
      rw [if_pos hover]
      exact Option.filter_some_neg (by simpa using UInt16.not_lt.mpr hge)
    · rw [if_neg hover]
      rfl
  · have hnext := add_one_toNat hend
    have hlt : rtpPort + 1 < cfg.bound := by
      rw [pastEnd_iff] at hend
      rw [UInt16.lt_iff_toNat_lt, hnext]
      omega
    rw [if_neg hend, if_pos (by rw [pastEnd_iff] at hend; omega)]
    exact Option.filter_some_pos (decide_eq_true hlt)

theorem checkedAdd_two (h : ¬pastEnd cfg rtpPort) : checkedAdd rtpPort 2 = some (rtpPort + 2) := by
  rw [pastEnd_iff] at h
  have hb := cfg.bound.toNat_lt
  exact if_pos (show rtpPort.toNat + 2 < 2 ^ 16 by omega)

/-- How many rounds are left at most. -/
def rounds (rtpPort : UInt16) (wrapped : Bool) : Nat :=
  (if wrapped = true then 0 else 2 ^ 16 + 1) + (2 ^ 16 - rtpPort.toNat) + 1

/-- The loop ends, without an overflow, with what the sweep finds. -/
theorem loop_eq_search {fuel : Nat} (hfuel : rounds rtpPort wrapped ≤ fuel) :
    loop cfg allocated first start fuel rtpPort wrapped = some (search cfg allocated first start rtpPort wrapped) := by
  have hlt := rtpPort.toNat_lt
  fun_induction search cfg allocated first start rtpPort wrapped generalizing fuel with
  | case1 rtpPort hend =>
      obtain ⟨fuel, rfl⟩ : ∃ n, fuel = n + 1 := ⟨fuel - 1, by unfold rounds at hfuel; omega⟩
      rw [loop, checkedAdd_one, if_pos hend]
      rfl
  | case2 rtpPort wrapped hend hw ih =>
      obtain rfl : wrapped = false := Bool.eq_false_of_not_eq_true hw
      obtain ⟨fuel, rfl⟩ : ∃ n, fuel = n + 1 := ⟨fuel - 1, by unfold rounds at hfuel; omega⟩
      rw [loop, checkedAdd_one, if_pos hend]
      dsimp only
      rw [if_neg hw]
      refine ih ?_ first.toNat_lt
      simp only [rounds, Bool.false_eq_true, ↓reduceIte] at hfuel ⊢
      omega
  | case3 rtpPort wrapped hend hfree =>
      obtain ⟨fuel, rfl⟩ : ∃ n, fuel = n + 1 := ⟨fuel - 1, by unfold rounds at hfuel; omega⟩
      rw [loop, checkedAdd_one, if_neg hend]
      exact if_pos hfree
  | case4 rtpPort wrapped hend hfree hdone =>
      obtain ⟨fuel, rfl⟩ : ∃ n, fuel = n + 1 := ⟨fuel - 1, by unfold rounds at hfuel; omega⟩
      rw [loop, checkedAdd_one, if_neg hend]
      dsimp only
      rw [if_neg hfree, if_pos hdone]
  | case5 rtpPort wrapped hend hfree hdone ih =>
      obtain ⟨fuel, rfl⟩ : ∃ n, fuel = n + 1 := ⟨fuel - 1, by unfold rounds at hfuel; omega⟩
      rw [loop, checkedAdd_one, if_neg hend]
      dsimp only
      rw [if_neg hfree, if_neg hdone, checkedAdd_two hend]
      refine ih ?_ (rtpPort + 2).toNat_lt
      have hstep := add_two_toNat hend
      unfold rounds at hfuel ⊢
      omega

/-- Before the sweep gives up it has looked at the pairs ahead of it and, after
its turn, at those before its start. -/
theorem search_none (hport : Candidate cfg rtpPort) (hfirst : Candidate cfg first)
    (h : search cfg allocated first start rtpPort wrapped = none) {p : UInt16} (hp : InRange cfg p)
    (hahead : rtpPort ≤ p ∧ (wrapped = true → p ≤ start) ∨ wrapped = false ∧ first ≤ p ∧ p ≤ start) :
    ¬Free allocated p := by
  obtain ⟨heven, -, hbound⟩ := hp
  fun_induction search cfg allocated first start rtpPort wrapped with
  | case1 rtpPort hend =>
      rw [pastEnd_iff] at hend
      rcases hahead with ⟨hle, -⟩ | ⟨hw, -⟩
      · rw [UInt16.le_iff_toNat_le] at hle
        omega
      · cases hw
  | case2 rtpPort wrapped hend hw ih =>
      rw [pastEnd_iff] at hend
      refine ih hfirst h ?_
      rcases hahead with ⟨hle, -⟩ | ⟨-, hrange⟩
      · rw [UInt16.le_iff_toNat_le] at hle
        omega
      · exact .inl ⟨hrange.1, fun _ => hrange.2⟩
  | case3 rtpPort wrapped hend hfree =>
      cases h
  | case4 rtpPort wrapped hend hfree hdone =>
      rcases hahead with ⟨hle, hw⟩ | ⟨hw, -⟩
      · have hpstart := hw hdone.1
        have hstart := hdone.2
        obtain rfl : p = rtpPort := UInt16.le_antisymm (UInt16.le_trans hpstart hstart) hle
        exact hfree
      · rw [hw] at hdone
        cases hdone.1
  | case5 rtpPort wrapped hend hfree hdone ih =>
      have hstep := add_two_toNat hend
      have hb := cfg.bound.toNat_lt
      by_cases hsame : p = rtpPort
      · rw [hsame]
        exact hfree
      · have hne : p.toNat ≠ rtpPort.toNat := fun he => hsame (UInt16.toNat_inj.mp he)
        rw [pastEnd_iff] at hend
        refine ih ⟨?_, ?_⟩ h ?_
        · rw [hstep]
          exact hport.1.trans (Nat.le_add_right _ _)
        · have hpar := hport.2
          omega
        · rcases hahead with ⟨hle, hw⟩ | hrange
          · refine .inl ⟨?_, hw⟩
            rw [UInt16.le_iff_toNat_le] at hle ⊢
            have hpar := hport.2
            omega
          · exact .inr hrange

theorem candidate_first (cfg : Settings) : Candidate cfg (evenAtOrAfter cfg.first) := evenAtOrAfter_spec cfg.first

theorem candidate_start (cfg : Settings) (cursor : UInt16) : Candidate cfg (evenAtOrAfter (max cursor cfg.first)) := by
  have hstart := evenAtOrAfter_spec (max cursor cfg.first)
  have hmax : cfg.first.toNat ≤ (max cursor cfg.first).toNat := by
    change _ ≤ (if cursor ≤ cfg.first then cfg.first else cursor).toNat
    split
    next => exact Nat.le_refl _
    next hle =>
      rw [UInt16.le_iff_toNat_le] at hle
      omega
  exact ⟨hmax.trans hstart.1, hstart.2⟩

/-- Rounding up does not pass an even port. -/
theorem evenAtOrAfter_le {port p : UInt16} (hle : port ≤ p) (heven : p.toNat % 2 = 0) : evenAtOrAfter port ≤ p := by
  have hlt := p.toNat_lt
  have hmod : port % 2 = 0 ↔ port.toNat % 2 = 0 := by
    rw [← UInt16.toNat_inj, UInt16.toNat_mod]
    rfl
  rw [UInt16.le_iff_toNat_le] at hle ⊢
  rw [evenAtOrAfter]
  split
  next => exact hle
  next h =>
    have hodd : ¬port.toNat % 2 = 0 := fun he => h (hmod.mpr he)
    rw [saturatingAdd_one_toNat]
    split
    next => omega
    next => omega

/-- No pair is found just when none is free. -/
theorem takeFree_none_iff (cfg : Settings) (pool : Pool) :
    (takeFree cfg pool).1 = none ↔ ∀ p, InRange cfg p → ¬Free pool.allocated p := by
  have hfirst := candidate_first cfg
  have hstart := candidate_start cfg pool.cursor
  unfold takeFree
  dsimp only
  split
  next hnone =>
    refine ⟨fun _ p hp => search_none hstart hfirst hnone hp ?_, fun _ => rfl⟩
    by_cases hle : evenAtOrAfter (max pool.cursor cfg.first) ≤ p
    · exact .inl ⟨hle, fun hw => by cases hw⟩
    · exact .inr ⟨rfl, evenAtOrAfter_le (UInt16.le_iff_toNat_le.mpr hp.2.1) hp.1, UInt16.le_of_lt (UInt16.not_le.mp hle)⟩
  next found hfound =>
    obtain ⟨hvalid, hfree⟩ := search_spec hfirst hstart hfound
    have hnext : (found + 1).toNat = found.toNat + 1 := hvalid.next
    have hrange : InRange cfg found := ⟨hvalid.even, hvalid.first_le, hnext ▸ hvalid.lt_bound⟩
    constructor
    · rintro ⟨⟩
    · intro h
      exact absurd hfree (h found hrange)

theorem popOldest_none_iff (pool : Pool) : (popOldest pool).1 = none ↔ pool.quarantine = [] := by
  unfold popOldest
  split
  next hnil => exact ⟨fun _ => hnil, fun _ => rfl⟩
  next hcons => exact ⟨fun h => (by cases h), fun h => by rw [hcons] at h; cases h⟩

theorem popOldest_takeFree {pool pool' : Pool} (h : takeFree cfg pool = (none, pool')) :
    (popOldest pool').1 = none ↔ pool.quarantine = [] := by
  rw [takeFree_none h, popOldest_none_iff]

end Loop

/-- Whatever the range, the ports that are taken and the cursor: the loop of
`allocate` ends without an overflow, and a call is refused just when, after the
sweep, no pair of the range is free and none is in quarantine. -/
theorem allocate_fails_iff_exhausted (cfg : Settings) (pool : Pool) (now : Nat) :
    (∃ fuel, ∀ allocated first start, loop cfg allocated first start fuel start false =
        some (search cfg allocated first start start false)) ∧
      ((∃ e, (allocate cfg pool now).1 = .error e) ↔
        (∀ p, InRange cfg p → ¬Free (sweepQuarantine cfg pool now).allocated p) ∧
          (sweepQuarantine cfg pool now).quarantine = []) := by
  refine ⟨⟨2 ^ 16 + 1 + 2 ^ 16 + 1, fun allocated first start => loop_eq_search ?_⟩, ?_⟩
  · simp only [rounds, Bool.false_eq_true, ↓reduceIte]
    omega
  · rw [← takeFree_none_iff, allocate]
    split
    next pair pool' htake =>
      rw [htake]
      exact ⟨by rintro ⟨e, ⟨⟩⟩, by rintro ⟨⟨⟩, -⟩⟩
    next pool' htake =>
      rw [htake, ← popOldest_takeFree htake]
      split
      next pair pool'' hpop =>
        rw [hpop]
        exact ⟨by rintro ⟨e, ⟨⟩⟩, by rintro ⟨-, ⟨⟩⟩⟩
      next pool'' hpop =>
        rw [hpop]
        exact ⟨fun _ => ⟨rfl, rfl⟩, fun _ => ⟨_, rfl⟩⟩

end NixiSbc.PortExhaustion

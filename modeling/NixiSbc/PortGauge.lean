import Mathlib.Data.List.DropRight
import NixiSbc.PortBooks
import NixiSbc.PortExhaustion

namespace NixiSbc.PortGauge

open Diagnostics PortAllocator PortBooks PortExhaustion Custody

def allocatedCount (pool : Pool) : Nat := pool.allocated.card / 2

def availableCount (cfg : Settings) (pool : Pool) : Nat :=
  (cfg.bound.toNat - cfg.first.toNat) / 2 - allocatedCount pool

/-- The pools that calls of `allocate`, `release` and `sweep` lead to, with the
pairs that are held: each is released by its holder, once. -/
inductive Reachable (cfg : Settings) : Pool → List PortPair → Prop
  | initial : Reachable cfg (withRangeAndHold cfg) []
  | allocated {pool pool' used pair} (now : Nat) (h : Reachable cfg pool used)
      (ha : allocate cfg pool now = (.ok pair, pool')) : Reachable cfg pool' (pair :: used)
  | refused {pool pool' used e} (now : Nat) (h : Reachable cfg pool used)
      (ha : allocate cfg pool now = (.error e, pool')) : Reachable cfg pool' used
  | released {pool used} (pair : PortPair) (now : Nat) (h : Reachable cfg pool used) (hheld : pair ∈ used) :
      Reachable cfg (release cfg pool pair now) (used.erase pair)
  | swept {pool used} (now : Nat) (h : Reachable cfg pool used) : Reachable cfg (sweepQuarantine cfg pool now) used

/-- A pair is handed out that was not waiting. -/
def Unforced (cfg : Settings) (pool : Pool) (now : Nat) : Prop :=
  (∃ pair, (allocate cfg pool now).1 = .ok pair) ∧ (allocate cfg pool now).2.forced = pool.forced

/-- So many calls in a row succeed without forced reuse, and not one more. -/
inductive Further (cfg : Settings) (now : Nat) : Pool → Nat → Prop
  | last {pool} (h : ¬Unforced cfg pool now) : Further cfg now pool 0
  | next {pool n} (h : Unforced cfg pool now) (hn : Further cfg now (allocate cfg pool now).2 n) :
      Further cfg now pool (n + 1)

/-- The pairs at the front of the queue that the next sweep gives back. -/
def dueCount (cfg : Settings) (pool : Pool) (now : Nat) : Nat :=
  (pool.quarantine.takeWhile fun e => cfg.hold ≤ now - e.2).length

/-- The first port and the last one of the range are left over. -/
def HalvesSplit (cfg : Settings) : Prop :=
  cfg.first.toNat % 2 = 1 ∧ cfg.bound.toNat % 2 = 1 ∧ cfg.first.toNat < cfg.bound.toNat

instance (cfg : Settings) : Decidable (HalvesSplit cfg) := inferInstanceAs (Decidable (_ ∧ _))

/-- Where the first pair of the range begins. -/
def base (cfg : Settings) : Nat := cfg.first.toNat + cfg.first.toNat % 2

/-- How many pairs the range has. -/
def pairCount (cfg : Settings) : Nat := (cfg.bound.toNat - base cfg) / 2

variable {cfg : Settings} {pool pool' : Pool} {used : List PortPair} {now : Nat}

theorem Reachable.books (h : Reachable cfg pool used) : Books cfg pool used := by
  induction h with
  | initial => exact books_initial cfg
  | allocated now h ha ih => exact ih.allocate ha
  | refused now h ha ih => exact ih.allocate ha
  | released pair now h hheld ih => exact (ih.perm (List.perm_cons_erase hheld).symm).release now
  | swept now h ih => exact ih.sweep now

section Counting

/-- The place of a pair among those of the range. -/
def place (cfg : Settings) (pair : PortPair) : Nat := (pair.rtp.toNat - base cfg) / 2

theorem place_lt {p : PortPair} (h : Valid cfg p) : place cfg p < pairCount cfg := by
  have heven := h.even
  have hfirst := h.first_le
  have hbound := h.lt_bound
  have hnext := h.next
  unfold place pairCount base
  omega

theorem eq_of_place {p q : PortPair} (hp : Valid cfg p) (hq : Valid cfg q) (h : place cfg p = place cfg q) : p = q := by
  have hpe := hp.even
  have hqe := hq.even
  have hpf := hp.first_le
  have hqf := hq.first_le
  have hrtp : p.rtp = q.rtp := by
    apply UInt16.toNat_inj.mp
    unfold place base at h
    omega
  exact hp.eq_of_sharesPort hq (.inl hrtp)

theorem exists_pair {k : Nat} (h : k < pairCount cfg) :
    ∃ p : PortPair, Valid cfg p ∧ place cfg p = k ∧ InRange cfg p.rtp ∧ p.rtcp = p.rtp + 1 := by
  have hb := cfg.bound.toNat_lt
  unfold pairCount base at h
  have hrtp : (UInt16.ofNat (base cfg + 2 * k)).toNat = base cfg + 2 * k := by
    apply UInt16.toNat_ofNat_of_lt'
    change base cfg + 2 * k < 2 ^ 16
    unfold base
    omega
  have hrtcp : (UInt16.ofNat (base cfg + 2 * k) + 1).toNat = base cfg + 2 * k + 1 := by
    rw [UInt16.toNat_add, hrtp]
    change (base cfg + 2 * k + 1) % 2 ^ 16 = _
    unfold base
    omega
  refine ⟨⟨UInt16.ofNat (base cfg + 2 * k), UInt16.ofNat (base cfg + 2 * k) + 1⟩, ⟨?_, ?_, ?_, ?_⟩, ?_,
    ⟨?_, ?_, ?_⟩, rfl⟩
  · rw [hrtp]; unfold base; omega
  · rw [hrtp, hrtcp]
  · rw [hrtp]; unfold base; omega
  · rw [hrtcp]; unfold base; omega
  · rw [place, hrtp]; omega
  · rw [hrtp]; unfold base; omega
  · rw [hrtp]; unfold base; omega
  · rw [hrtp]; unfold base; omega

theorem places_nodup (h : Books cfg pool used) : ((used ++ waiting pool).map (place cfg)).Nodup :=
  h.nodup.map_on fun p hp q hq he => eq_of_place (h.valid p hp) (h.valid q hq) he

theorem length_le (h : Books cfg pool used) : (used ++ waiting pool).length ≤ pairCount cfg := by
  have hsub : (used ++ waiting pool).map (place cfg) ⊆ List.range (pairCount cfg) := by
    intro k hk
    obtain ⟨p, hp, rfl⟩ := List.mem_map.mp hk
    exact List.mem_range.mpr (place_lt (h.valid p hp))
  have hlen := ((places_nodup h).subperm hsub).length_le
  rwa [List.length_map, List.length_range] at hlen

/-- A pair of the range is free as long as not all of them are held or waiting. -/
theorem free_iff (h : Books cfg pool used) :
    (∀ p, InRange cfg p → ¬Free pool.allocated p) ↔ (used ++ waiting pool).length = pairCount cfg := by
  constructor
  · intro hnone
    refine Nat.le_antisymm (length_le h) ?_
    have hsub : List.range (pairCount cfg) ⊆ (used ++ waiting pool).map (place cfg) := by
      intro k hk
      obtain ⟨p, hvalid, rfl, hrange, hrtcp⟩ := exists_pair (List.mem_range.mp hk)
      have htaken : p.rtp ∈ pool.allocated ∨ p.rtcp ∈ pool.allocated := by
        by_contra hfree
        rw [not_or, hrtcp] at hfree
        exact hnone p.rtp hrange hfree
      have hcell : ∃ q ∈ used ++ waiting pool, SharesPort p q := by
        rcases htaken with hport | hport
        · obtain ⟨q, hq, hmem⟩ := (h.covered.mem_iff _).mp hport
          exact ⟨q, hq, (mem_ports.mp hmem).elim .inl fun hs => .inr (.inl hs)⟩
        · obtain ⟨q, hq, hmem⟩ := (h.covered.mem_iff _).mp hport
          exact ⟨q, hq, (mem_ports.mp hmem).elim (fun hs => .inr (.inr (.inl hs))) fun hs => .inr (.inr (.inr hs))⟩
      obtain ⟨q, hq, hshare⟩ := hcell
      obtain rfl := hvalid.eq_of_sharesPort (h.valid q hq) hshare
      exact List.mem_map_of_mem hq
    have hlen := (List.nodup_range.subperm hsub).length_le
    rwa [List.length_map, List.length_range] at hlen
  · rintro hlen p hrange ⟨hrtp, hrtcp⟩
    have hnext : (p + 1).toNat = p.toNat + 1 := by
      have hend : ¬pastEnd cfg p := by
        rw [pastEnd_iff]
        exact Nat.not_le.mpr hrange.2.2
      exact add_one_toNat hend
    have hvalid : Valid cfg ⟨p, p + 1⟩ := ⟨hrange.1, hnext, hrange.2.1, by rw [hnext]; exact hrange.2.2⟩
    have hnew : (⟨p, p + 1⟩ : PortPair) ∉ used ++ waiting pool := fun hmem =>
      hrtp ((h.covered.mem_iff _).mpr ⟨_, hmem, mem_ports.mpr (.inl rfl)⟩)
    have hnodup : ((⟨p, p + 1⟩ :: (used ++ waiting pool)).map (place cfg)).Nodup :=
      (List.nodup_cons.mpr ⟨hnew, h.nodup⟩).map_on fun a ha b hb he => by
        have hall (c : PortPair) (hc : c ∈ (⟨p, p + 1⟩ : PortPair) :: (used ++ waiting pool)) : Valid cfg c := by
          rcases List.mem_cons.mp hc with rfl | hc
          · exact hvalid
          · exact h.valid c hc
        exact eq_of_place (hall a ha) (hall b hb) he
    have hsub : ((⟨p, p + 1⟩ :: (used ++ waiting pool)).map (place cfg)) ⊆ List.range (pairCount cfg) := by
      intro k hk
      obtain ⟨q, hq, rfl⟩ := List.mem_map.mp hk
      rcases List.mem_cons.mp hq with rfl | hq
      · exact List.mem_range.mpr (place_lt hvalid)
      · exact List.mem_range.mpr (place_lt (h.valid q hq))
    have hle := (hnodup.subperm hsub).length_le
    rw [List.length_map, List.length_range, List.length_cons] at hle
    omega

theorem allocatedCount_eq (h : Books cfg pool used) : allocatedCount pool = (used ++ waiting pool).length := by
  have htwo : ∀ p ∈ used ++ waiting pool, (ports p).card = 2 := by
    intro p hp
    have hnext := (h.valid p hp).next
    refine Finset.card_pair fun he => ?_
    rw [he] at hnext
    omega
  rw [allocatedCount, h.covered.card, List.map_congr_left htwo, List.map_const', List.sum_replicate_nat]
  omega

end Counting

section Calls

theorem expire_fst (hold now : Nat) (queue : List (PortPair × Nat)) (allocated : Finset UInt16) :
    (expire hold now queue allocated).1 = queue.dropWhile fun e => hold ≤ now - e.2 := by
  induction queue generalizing allocated with
  | nil => rfl
  | cons e queue ih =>
      obtain ⟨pair, freedAt⟩ := e
      rw [expire]
      split
      next hearly => rw [List.dropWhile_cons_of_neg (by simpa using hearly)]
      next hdue =>
        rw [ih, List.dropWhile_cons_of_pos (by simpa using hdue)]

theorem sweep_quarantine (cfg : Settings) (pool : Pool) (now : Nat) :
    (sweepQuarantine cfg pool now).quarantine = pool.quarantine.dropWhile fun e => cfg.hold ≤ now - e.2 :=
  expire_fst cfg.hold now pool.quarantine pool.allocated

/-- What one sweep leaves, a second one at the same time leaves too. -/
theorem waiting_swept (h : pool'.quarantine = (sweepQuarantine cfg pool now).quarantine) :
    waiting (sweepQuarantine cfg pool' now) = waiting pool' := by
  rw [waiting, waiting, sweep_quarantine, h, sweep_quarantine, List.dropWhile_idempotent]

theorem length_swept (cfg : Settings) (pool : Pool) (now : Nat) :
    (waiting pool).length = dueCount cfg pool now + (waiting (sweepQuarantine cfg pool now)).length := by
  rw [waiting, waiting, sweep_quarantine, List.length_map, List.length_map, dueCount, ← List.length_append,
    List.takeWhile_append_dropWhile]

theorem allocate_of_free {pair : PortPair} (h : takeFree cfg (sweepQuarantine cfg pool now) = (some pair, pool')) :
    allocate cfg pool now = (.ok pair, pool') := by
  rw [allocate, h]

/-- A call needs no forced reuse just when a pair is free. -/
theorem unforced_iff : Unforced cfg pool now ↔ (takeFree cfg (sweepQuarantine cfg pool now)).1 ≠ none := by
  unfold Unforced
  rcases htake : takeFree cfg (sweepQuarantine cfg pool now) with ⟨_ | pair, pool'⟩
  · obtain rfl := takeFree_none htake
    rw [allocate, htake]
    dsimp only
    rcases hpop : popOldest (sweepQuarantine cfg pool now) with ⟨_ | pair, pool''⟩
    · exact ⟨by rintro ⟨⟨pair, ⟨⟩⟩, -⟩, fun h => absurd rfl h⟩
    · have hforced : pool''.forced = pool.forced := by
        unfold popOldest at hpop
        split at hpop
        next => cases hpop
        next => cases hpop; rfl
      refine ⟨fun h => ?_, fun h => absurd rfl h⟩
      have hsame : pool.forced + 1 = pool.forced := hforced ▸ h.2
      exact absurd hsame (by simp)
  · have hforced : pool'.forced = pool.forced := (takeFree_some htake).2.2.2.2.2
    rw [allocate_of_free htake]
    refine ⟨fun _ => ?_, fun _ => ⟨⟨pair, rfl⟩, hforced⟩⟩
    rintro ⟨⟩

/-- As many calls succeed as pairs are neither held nor waiting after the sweep. -/
theorem further_of_books (h : Books cfg pool used) {n : Nat}
    (hn : (used ++ waiting (sweepQuarantine cfg pool now)).length + n = pairCount cfg) : Further cfg now pool n := by
  have hsweep := h.sweep now
  induction n generalizing pool used with
  | zero =>
      refine .last fun hunforced => unforced_iff.mp hunforced ?_
      exact (takeFree_none_iff cfg _).mpr ((free_iff hsweep).mpr hn)
  | succ n ih =>
      have hfree : (takeFree cfg (sweepQuarantine cfg pool now)).1 ≠ none := fun hnone => by
        have hall := (free_iff hsweep).mp ((takeFree_none_iff cfg _).mp hnone)
        omega
      refine .next (unforced_iff.mpr hfree) ?_
      rcases htake : takeFree cfg (sweepQuarantine cfg pool now) with ⟨_ | pair, pool'⟩
      · exact absurd (congrArg Prod.fst htake) hfree
      · have hbooks := hsweep.takeFree htake
        have hqueue := (takeFree_some htake).2.2.2.2.1
        rw [allocate_of_free htake]
        refine ih hbooks ?_ (hbooks.sweep now)
        rw [waiting_swept hqueue, waiting, hqueue, ← waiting, List.cons_append, List.length_cons]
        omega

/-- There is one such number. -/
theorem Further.unique {m n : Nat} (hm : Further cfg now pool m) (hn : Further cfg now pool n) : m = n := by
  induction hm generalizing n with
  | last h =>
      cases hn with
      | last => rfl
      | next h' => exact absurd h' h
  | next h _ ih =>
      cases hn with
      | last h' => exact absurd h h'
      | next _ hn => rw [ih hn]

/-- The gauge counts a pair too many where the range begins and ends with half a pair. -/
theorem half_range (hrange : cfg.first ≤ cfg.bound) :
    (cfg.bound.toNat - cfg.first.toNat) / 2 = pairCount cfg + if HalvesSplit cfg then 1 else 0 := by
  rw [UInt16.le_iff_toNat_le] at hrange
  unfold pairCount base
  by_cases h : HalvesSplit cfg
  · rw [if_pos h]
    unfold HalvesSplit at h
    omega
  · rw [if_neg h]
    unfold HalvesSplit at h
    omega

end Calls

/-- The gauge tells how many calls would still succeed just when as many pairs
are due as it counts too many: none, or one where the range begins and ends with
half a pair. -/
theorem available_eq_further_iff (hrange : cfg.first ≤ cfg.bound) (h : Reachable cfg pool used) (now : Nat) :
    (∃ n, Further cfg now pool n) ∧ ∀ n, Further cfg now pool n →
      (availableCount cfg pool = n ↔ dueCount cfg pool now = if HalvesSplit cfg then 1 else 0) := by
  have hbooks := h.books
  have hle := length_le (hbooks.sweep now)
  have hlen := length_le hbooks
  have hdue := length_swept cfg pool now
  obtain ⟨n, hn⟩ : ∃ n, (used ++ waiting (sweepQuarantine cfg pool now)).length + n = pairCount cfg :=
    ⟨_, Nat.add_sub_cancel' hle⟩
  have hfurther := further_of_books hbooks hn
  refine ⟨⟨n, hfurther⟩, fun m hm => ?_⟩
  obtain rfl := hfurther.unique hm
  rw [availableCount, half_range hrange, allocatedCount_eq hbooks]
  rw [List.length_append] at hle hlen hn ⊢
  omega

/-- Nothing is held of two pairs, and three calls are made of which the last is refused. -/
theorem available_eq_further_twoPairs :
    (∃ n, Further ⟨10000, 10004, 0⟩ 7 (withRangeAndHold ⟨10000, 10004, 0⟩) n) ∧
      ∀ n, Further ⟨10000, 10004, 0⟩ 7 (withRangeAndHold ⟨10000, 10004, 0⟩) n →
        (availableCount ⟨10000, 10004, 0⟩ (withRangeAndHold ⟨10000, 10004, 0⟩) = n ↔
          dueCount ⟨10000, 10004, 0⟩ (withRangeAndHold ⟨10000, 10004, 0⟩) 7 =
            if HalvesSplit ⟨10000, 10004, 0⟩ then 1 else 0) :=
  available_eq_further_iff (by decide) .initial 7

/-- A range of half a pair at either end: the gauge shows a pair and no call succeeds. -/
theorem odd_range_counts_no_pair :
    availableCount ⟨10001, 10003, 0⟩ (withRangeAndHold ⟨10001, 10003, 0⟩) = 1 ∧
      Further ⟨10001, 10003, 0⟩ 0 (withRangeAndHold ⟨10001, 10003, 0⟩) 0 := by
  refine ⟨by decide, further_of_books (books_initial _) (by decide)⟩

end NixiSbc.PortGauge

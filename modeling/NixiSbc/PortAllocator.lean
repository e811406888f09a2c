import NixiSbc.Diagnostics
import Mathlib.Algebra.Group.Nat.Defs
import Mathlib.Data.Finset.Insert
import Mathlib.Data.Finset.Erase
import Mathlib.Tactic.Common

namespace NixiSbc.PortAllocator

open Diagnostics

structure PortPair where
  rtp : UInt16
  rtcp : UInt16
  deriving DecidableEq

/-- What the constructor fixes: the half-open port range and the hold, in ticks
of the clock. -/
structure Settings where
  first : UInt16
  bound : UInt16
  hold : Nat

/-- The shared state behind the locks and the atomic. -/
structure Pool where
  allocated : Finset UInt16
  quarantine : List (PortPair × Nat)
  cursor : UInt16
  forced : UInt64

def withRangeAndHold (cfg : Settings) : Pool := ⟨∅, [], cfg.first, 0⟩

def saturatingAdd (a b : UInt16) : UInt16 := if a.toNat + b.toNat < 2 ^ 16 then a + b else 65535

def evenAtOrAfter (port : UInt16) : UInt16 := if port % 2 = 0 then port else saturatingAdd port 1

/-- No pair starts at this port: its RTCP port overflows or is past the range. -/
def pastEnd (cfg : Settings) (rtpPort : UInt16) : Prop :=
  rtpPort.toNat + 1 ≥ 2 ^ 16 ∨ rtpPort + 1 ≥ cfg.bound

instance (cfg : Settings) (rtpPort : UInt16) : Decidable (pastEnd cfg rtpPort) :=
  inferInstanceAs (Decidable (_ ∨ _))

theorem pastEnd_iff (cfg : Settings) (rtpPort : UInt16) :
    pastEnd cfg rtpPort ↔ cfg.bound.toNat ≤ rtpPort.toNat + 1 := by
  have hb := cfg.bound.toNat_lt
  rw [pastEnd]
  by_cases hover : rtpPort.toNat + 1 ≥ 2 ^ 16
  · exact ⟨fun _ => by omega, fun _ => .inl hover⟩
  · have hadd : (rtpPort + 1).toNat = rtpPort.toNat + 1 := by
      rw [UInt16.toNat_add]
      change (rtpPort.toNat + 1) % 2 ^ 16 = _
      omega
    rw [ge_iff_le, ge_iff_le, UInt16.le_iff_toNat_le, hadd]
    omega

theorem add_one_toNat {cfg : Settings} {rtpPort : UInt16} (h : ¬pastEnd cfg rtpPort) :
    (rtpPort + 1).toNat = rtpPort.toNat + 1 := by
  rw [pastEnd_iff] at h
  have hb := cfg.bound.toNat_lt
  rw [UInt16.toNat_add]
  change (rtpPort.toNat + 1) % 2 ^ 16 = _
  omega

theorem add_two_toNat {cfg : Settings} {rtpPort : UInt16} (h : ¬pastEnd cfg rtpPort) :
    (rtpPort + 2).toNat = rtpPort.toNat + 2 := by
  rw [pastEnd_iff] at h
  have hb := cfg.bound.toNat_lt
  rw [UInt16.toNat_add]
  change (rtpPort.toNat + 2) % 2 ^ 16 = _
  omega

/-- The forward sweep of `allocate`: from the cursor to the end of the range,
then once more from its beginning up to where it started. -/
def search (cfg : Settings) (allocated : Finset UInt16) (first start rtpPort : UInt16)
    (wrapped : Bool) : Option UInt16 :=
  if pastEnd cfg rtpPort then
    if wrapped = true then none else search cfg allocated first start first true
  else if rtpPort ∉ allocated ∧ rtpPort + 1 ∉ allocated then some rtpPort
  else if wrapped = true ∧ rtpPort ≥ start then none
  else search cfg allocated first start (rtpPort + 2) wrapped
termination_by ((!wrapped).toNat, 2 ^ 16 - rtpPort.toNat)
decreasing_by
  · have hw : wrapped = false := Bool.eq_false_of_not_eq_true ‹_›
    subst hw
    exact Prod.Lex.left _ _ Nat.zero_lt_one
  · have hlt := rtpPort.toNat_lt
    have hstep := add_two_toNat ‹_›
    rw [hstep]
    exact Prod.Lex.right _ (by omega)

/-- The block of `allocate` under the `allocated` and `cursor` locks. -/
def takeFree (cfg : Settings) (pool : Pool) : Option PortPair × Pool :=
  let first := evenAtOrAfter cfg.first
  let start := evenAtOrAfter (max pool.cursor cfg.first)
  match search cfg pool.allocated first start start false with
  | none => (none, pool)
  | some rtpPort =>
      (some ⟨rtpPort, rtpPort + 1⟩,
        { pool with
          allocated := insert (rtpPort + 1) (insert rtpPort pool.allocated)
          cursor := saturatingAdd rtpPort 2 })

def popOldest (pool : Pool) : Option PortPair × Pool :=
  match pool.quarantine with
  | [] => (none, pool)
  | (pair, _) :: rest => (some pair, { pool with quarantine := rest })

def unmark (pool : Pool) (pair : PortPair) : Pool :=
  { pool with allocated := (pool.allocated.erase pair.rtp).erase pair.rtcp }

/-- The loop of `sweep_quarantine`, with the clock as it was read before the
locks were taken. The difference of two instants saturates at zero. -/
def expire (hold now : Nat) : List (PortPair × Nat) → Finset UInt16 →
    List (PortPair × Nat) × Finset UInt16
  | [], allocated => ([], allocated)
  | (pair, freedAt) :: rest, allocated =>
      if now - freedAt < hold then ((pair, freedAt) :: rest, allocated)
      else expire hold now rest ((allocated.erase pair.rtp).erase pair.rtcp)

def sweepQuarantine (cfg : Settings) (pool : Pool) (now : Nat) : Pool :=
  let (quarantine, allocated) := expire cfg.hold now pool.quarantine pool.allocated
  { pool with quarantine, allocated }

/-- The block of `release` with a hold: the pair waits, marked as before. -/
def enqueue (pool : Pool) (pair : PortPair) (now : Nat) : Pool :=
  if pool.quarantine.any (fun e => e.1 = pair) then pool
  else { pool with quarantine := pool.quarantine ++ [(pair, now)] }

/-- A call of `allocate` that meets no other: the blocks one after the other. -/
def allocate (cfg : Settings) (pool : Pool) (now : Nat) : Except Error PortPair × Pool :=
  match takeFree cfg (sweepQuarantine cfg pool now) with
  | (some pair, pool) => (.ok pair, pool)
  | (none, pool) =>
      match popOldest pool with
      | (some pair, pool) => (.ok pair, { pool with forced := pool.forced + 1 })
      | (none, pool) => (.error (.transport "No available ports in range"), pool)

def release (cfg : Settings) (pool : Pool) (pair : PortPair) (now : Nat) : Pool :=
  if cfg.hold = 0 then unmark pool pair else enqueue pool pair now

def isAllocated (pool : Pool) (pair : PortPair) : Bool :=
  pair.rtp ∈ pool.allocated ∧ pair.rtcp ∈ pool.allocated

/-- What `allocate` may hand out: an even RTP port and the RTCP port after it,
both inside the range. -/
structure Valid (cfg : Settings) (pair : PortPair) : Prop where
  even : pair.rtp.toNat % 2 = 0
  next : pair.rtcp.toNat = pair.rtp.toNat + 1
  first_le : cfg.first.toNat ≤ pair.rtp.toNat
  lt_bound : pair.rtcp.toNat < cfg.bound.toNat

def SharesPort (p q : PortPair) : Prop :=
  p.rtp = q.rtp ∨ p.rtp = q.rtcp ∨ p.rtcp = q.rtp ∨ p.rtcp = q.rtcp

/-- Valid pairs are aligned, so one common port makes them equal. -/
theorem Valid.eq_of_sharesPort {cfg : Settings} {p q : PortPair} (hp : Valid cfg p)
    (hq : Valid cfg q) (h : SharesPort p q) : p = q := by
  have hp1 := hp.even
  have hp2 := hp.next
  have hq1 := hq.even
  have hq2 := hq.next
  have hrtp : p.rtp.toNat = q.rtp.toNat := by
    rcases h with h | h | h | h
    · rw [h]
    · have hn := congrArg UInt16.toNat h
      omega
    · have hn := congrArg UInt16.toNat h
      omega
    · have hn := congrArg UInt16.toNat h
      omega
  obtain ⟨a, b⟩ := p
  obtain ⟨c, d⟩ := q
  have hac : a = c := UInt16.toNat_inj.mp hrtp
  have hbd : b = d := UInt16.toNat_inj.mp (by rw [hp2, hq2, hrtp])
  rw [hac, hbd]

theorem saturatingAdd_one_toNat (port : UInt16) :
    (saturatingAdd port 1).toNat = if port.toNat + 1 < 2 ^ 16 then port.toNat + 1 else 65535 := by
  rw [saturatingAdd]
  change (if port.toNat + 1 < 2 ^ 16 then port + 1 else 65535 : UInt16).toNat = _
  split
  next h =>
    rw [UInt16.toNat_add]
    exact Nat.mod_eq_of_lt h
  next h => rfl

/-- Rounding up stays at or above the port, and ends on an even one or on the
last port of all, which the loop skips. -/
theorem evenAtOrAfter_spec (port : UInt16) :
    port.toNat ≤ (evenAtOrAfter port).toNat ∧
    ((evenAtOrAfter port).toNat % 2 = 0 ∨ (evenAtOrAfter port).toNat = 65535) := by
  have hlt := port.toNat_lt
  have hmod : port % 2 = 0 ↔ port.toNat % 2 = 0 := by
    rw [← UInt16.toNat_inj, UInt16.toNat_mod]
    rfl
  rw [evenAtOrAfter]
  split
  next h => exact ⟨le_rfl, .inl (hmod.mp h)⟩
  next h =>
    have hodd : ¬ port.toNat % 2 = 0 := fun he => h (hmod.mpr he)
    rw [saturatingAdd_one_toNat]
    split
    · exact ⟨by omega, .inl (by omega)⟩
    · exact ⟨by omega, .inr rfl⟩

/-- A port that the loop may look at. -/
def Candidate (cfg : Settings) (port : UInt16) : Prop :=
  cfg.first.toNat ≤ port.toNat ∧ (port.toNat % 2 = 0 ∨ port.toNat = 65535)

theorem search_spec {cfg : Settings} {allocated : Finset UInt16} {first start rtpPort : UInt16}
    {wrapped : Bool} (hfirst : Candidate cfg first) (hport : Candidate cfg rtpPort) {found : UInt16}
    (h : search cfg allocated first start rtpPort wrapped = some found) :
    Valid cfg ⟨found, found + 1⟩ ∧ found ∉ allocated ∧ found + 1 ∉ allocated := by
  fun_induction search cfg allocated first start rtpPort wrapped with
  | case1 rtpPort hend => cases h
  | case2 rtpPort wrapped hend hw ih => exact ih hfirst h
  | case3 rtpPort wrapped hend hfree =>
      cases h
      have hnext := add_one_toNat hend
      rw [pastEnd_iff] at hend
      have hb := cfg.bound.toNat_lt
      refine ⟨⟨?_, hnext, hport.1, ?_⟩, hfree⟩
      · rcases hport.2 with heven | hlast
        · exact heven
        · omega
      · change (found + 1).toNat < _
        omega
  | case4 rtpPort wrapped hend hfree hdone => cases h
  | case5 rtpPort wrapped hend hfree hdone ih =>
      have hstep := add_two_toNat hend
      rw [pastEnd_iff] at hend
      have hb := cfg.bound.toNat_lt
      refine ih ⟨?_, ?_⟩ h
      · rw [hstep]
        exact hport.1.trans (Nat.le_add_right _ _)
      · rcases hport.2 with heven | hlast
        · exact .inl (by omega)
        · omega

theorem takeFree_some {cfg : Settings} {pool pool' : Pool} {pair : PortPair}
    (h : takeFree cfg pool = (some pair, pool')) :
    Valid cfg pair ∧ pair.rtp ∉ pool.allocated ∧ pair.rtcp ∉ pool.allocated ∧
    pool'.allocated = insert pair.rtcp (insert pair.rtp pool.allocated) ∧
    pool'.quarantine = pool.quarantine ∧ pool'.forced = pool.forced := by
  have hmax : cfg.first.toNat ≤ (max pool.cursor cfg.first).toNat := by
    change _ ≤ (if pool.cursor ≤ cfg.first then cfg.first else pool.cursor).toNat
    split
    next hle => exact le_rfl
    next hle =>
      rw [UInt16.le_iff_toNat_le] at hle
      omega
  have hfirst := evenAtOrAfter_spec cfg.first
  have hstart := evenAtOrAfter_spec (max pool.cursor cfg.first)
  rw [takeFree] at h
  split at h
  · cases h
  next found hs =>
    cases h
    obtain ⟨hv, hr, hc⟩ := search_spec hfirst ⟨hmax.trans hstart.1, hstart.2⟩ hs
    exact ⟨hv, hr, hc, rfl, rfl, rfl⟩

theorem takeFree_none {cfg : Settings} {pool pool' : Pool}
    (h : takeFree cfg pool = (none, pool')) : pool' = pool := by
  rw [takeFree] at h
  split at h
  · cases h
    rfl
  · cases h

theorem popOldest_none {pool pool' : Pool} (h : popOldest pool = (none, pool')) : pool' = pool := by
  rw [popOldest] at h
  split at h
  · cases h
    rfl
  · cases h

/-- When nothing waits and the pair at the cursor is free, that one is handed out. -/
theorem allocate_at_cursor {cfg : Settings} {pool : Pool} {now : Nat} (port : UInt16)
    (hqueue : pool.quarantine = []) (hstart : evenAtOrAfter (max pool.cursor cfg.first) = port)
    (hend : ¬pastEnd cfg port) (hfree : port ∉ pool.allocated ∧ port + 1 ∉ pool.allocated) :
    allocate cfg pool now =
      (.ok ⟨port, port + 1⟩, { pool with
        allocated := insert (port + 1) (insert port pool.allocated)
        cursor := saturatingAdd port 2 }) := by
  have hsweep : sweepQuarantine cfg pool now = pool := by
    rw [sweepQuarantine, hqueue, expire, ← hqueue]
  have hsearch : search cfg pool.allocated (evenAtOrAfter cfg.first) port port false = some port := by
    rw [search, if_neg hend, if_pos hfree]
  rw [allocate, hsweep, takeFree, hstart, hsearch]

end NixiSbc.PortAllocator

import NixiSbc.PortSystem
import NixiSbc.Custody

namespace NixiSbc.PortOwnership

open Diagnostics PortAllocator PortSystem Custody

variable {Client : Type}

inductive Use
  | taken
  | freed (time : Nat)
  deriving DecidableEq

/-- The latest thing that happened to a pair; the newest event is in front. -/
def lastUse (pair : PortPair) : List (Event Client) → Option Use
  | [] => none
  | .handOut _ q _ _ :: history => if q = pair then some .taken else lastUse pair history
  | .released _ q time :: history => if q = pair then some (.freed time) else lastUse pair history
  | .refused _ _ :: history => lastUse pair history
  | .counted _ _ :: history => lastUse pair history

/-- Never used, or released at least `hold` before `time`. -/
def Rested (hold : Nat) (history : List (Event Client)) (pair : PortPair) (time : Nat) : Prop :=
  lastUse pair history = none ∨
    ∃ freedAt, lastUse pair history = some (.freed freedAt) ∧ freedAt + hold ≤ time

theorem Rested.mono {hold : Nat} {history : List (Event Client)} {pair : PortPair} {t t' : Nat}
    (h : Rested hold history pair t) (ht : t ≤ t') : Rested hold history pair t' := by
  rcases h with h | ⟨freedAt, h, hle⟩
  · exact .inl h
  · exact .inr ⟨freedAt, h, hle.trans ht⟩

def forcedCount : List (Event Client) → Nat
  | [] => 0
  | .handOut _ _ true _ :: history => forcedCount history + 1
  | _ :: history => forcedCount history

/-- Every hand-out in the history was of a valid pair, and rested unless it was
forced. -/
def Sound (cfg : Settings) : List (Event Client) → Prop
  | [] => True
  | .handOut _ pair forced time :: history =>
      Valid cfg pair ∧ (forced = false → Rested cfg.hold history pair time) ∧ Sound cfg history
  | _ :: history => Sound cfg history

def Neutral : Event Client → Prop
  | .refused _ _ => True
  | .counted _ _ => True
  | _ => False

theorem neutral_lastUse {e : Event Client} (he : Neutral e) (history : List (Event Client)) :
    (fun pair => lastUse pair (e :: history)) = fun pair => lastUse pair history := by
  funext pair
  cases e with
  | handOut | released => exact he.elim
  | refused | counted => rfl

inductive Place (Client : Type)
  | client (c : Client)
  | quarantine

def inHand : Pc → List PortPair
  | .counting pair => [pair]
  | .releasing pair => [pair]
  | _ => []

/-- The time that a call in progress read when it began. -/
def readAt : Pc → Option Nat
  | .sweeping _ now => some now
  | .expiring _ now => some now
  | _ => none

def places (s : System Client) : Place Client → List PortPair
  | .client c => s.held c ++ inHand (s.pc c)
  | .quarantine => s.pool.quarantine.map Prod.fst

/-- Every pair in some place is valid, marked as allocated and in that place
only. -/
structure Kept (cfg : Settings) (contents : Place Client → List PortPair)
    (allocated : Finset UInt16) : Prop where
  exclusive : Exclusive contents
  marked : ∀ place, ∀ p ∈ contents place,
    Valid cfg p ∧ p.rtp ∈ allocated ∧ p.rtcp ∈ allocated

section Kept

variable {cfg : Settings} {f g : Place Client → List PortPair} {allocated : Finset UInt16}
  {p : PortPair} {i j : Place Client}

theorem Kept.perm (h : Kept cfg f allocated) (hp : ∀ i, (g i).Perm (f i)) : Kept cfg g allocated :=
  ⟨h.exclusive.perm hp, fun i p hm => h.marked i p ((hp i).mem_iff.mp hm)⟩

theorem Kept.move (h : Kept cfg f allocated) (hij : i ≠ j) (hi : (f i).Perm (p :: g i))
    (hj : (g j).Perm (p :: f j)) (ho : ∀ k, k ≠ i → k ≠ j → g k = f k) : Kept cfg g allocated := by
  refine ⟨h.exclusive.move hij hi hj ho, fun k q hq => ?_⟩
  by_cases hki : k = i
  · subst hki
    exact h.marked k q (hi.mem_iff.mpr (List.mem_cons_of_mem _ hq))
  · by_cases hkj : k = j
    · subst hkj
      rcases List.mem_cons.mp (hj.mem_iff.mp hq) with rfl | hq
      · exact h.marked i q (hi.mem_iff.mpr List.mem_cons_self)
      · exact h.marked k q hq
    · rw [ho k hki hkj] at hq
      exact h.marked k q hq

theorem Kept.take (h : Kept cfg f allocated) (hv : Valid cfg p) (hr : p.rtp ∉ allocated)
    (hi : (g i).Perm (p :: f i)) (ho : ∀ k, k ≠ i → g k = f k) :
    Kept cfg g (insert p.rtcp (insert p.rtp allocated)) := by
  have hnew : ∀ k, p ∉ f k := fun k hm => hr (h.marked k p hm).2.1
  have hold {k : Place Client} {q : PortPair} (hq : q ∈ f k) : Valid cfg q ∧
      q.rtp ∈ insert p.rtcp (insert p.rtp allocated) ∧
      q.rtcp ∈ insert p.rtcp (insert p.rtp allocated) := by
    obtain ⟨hqv, hqr, hqc⟩ := h.marked k q hq
    exact ⟨hqv, Finset.mem_insert_of_mem (Finset.mem_insert_of_mem hqr),
      Finset.mem_insert_of_mem (Finset.mem_insert_of_mem hqc)⟩
  refine ⟨h.exclusive.add hnew hi ho, fun k q hq => ?_⟩
  by_cases hk : k = i
  · subst hk
    rcases List.mem_cons.mp (hi.mem_iff.mp hq) with rfl | hq
    · exact ⟨hv, Finset.mem_insert_of_mem (Finset.mem_insert_self _ _), Finset.mem_insert_self _ _⟩
    · exact hold hq
  · rw [ho k hk] at hq
    exact hold hq

theorem mem_unmarked {q : PortPair} (hp : Valid cfg p) (hq : Valid cfg q) (hne : q ≠ p) :
    (q.rtp ∈ (allocated.erase p.rtp).erase p.rtcp ↔ q.rtp ∈ allocated) ∧
    (q.rtcp ∈ (allocated.erase p.rtp).erase p.rtcp ↔ q.rtcp ∈ allocated) := by
  have hfar : ¬SharesPort q p := fun hs => hne (hq.eq_of_sharesPort hp hs)
  simp only [SharesPort, not_or] at hfar
  simp only [Finset.mem_erase]
  exact ⟨⟨fun hm => hm.2.2, fun hm => ⟨hfar.2.1, hfar.1, hm⟩⟩,
    ⟨fun hm => hm.2.2, fun hm => ⟨hfar.2.2.2, hfar.2.2.1, hm⟩⟩⟩

theorem Kept.drop (h : Kept cfg f allocated) (hi : (f i).Perm (p :: g i))
    (ho : ∀ k, k ≠ i → g k = f k) : Kept cfg g ((allocated.erase p.rtp).erase p.rtcp) := by
  obtain ⟨hex, hgone⟩ := h.exclusive.remove hi ho
  refine ⟨hex, fun k q hq => ?_⟩
  have hqf : q ∈ f k := by
    by_cases hk : k = i
    · subst hk
      exact hi.mem_iff.mpr (List.mem_cons_of_mem _ hq)
    · rwa [ho k hk] at hq
  have hpv := (h.marked i p (hi.mem_iff.mpr List.mem_cons_self)).1
  obtain ⟨hqv, hqr, hqc⟩ := h.marked k q hqf
  have hne : q ≠ p := fun he => hgone k (he ▸ hq)
  obtain ⟨hr, hc⟩ := mem_unmarked hpv hqv hne 
  exact ⟨hqv, hr.mpr hqr, hc.mpr hqc⟩

end Kept

/-- The ownership invariant. Next to where the pairs are, every pair that is not
marked is ready to be used, and the books on the past are right. -/
structure Owned (cfg : Settings) (s : System Client) : Prop where
  kept : Kept cfg (places s) s.pool.allocated
  ready : ∀ p, Valid cfg p → p.rtp ∉ s.pool.allocated → p.rtcp ∉ s.pool.allocated →
    Rested cfg.hold s.history p s.clock
  waiting : ∀ e ∈ s.pool.quarantine, lastUse e.1 s.history = some (.freed e.2)
  disabled : cfg.hold = 0 → s.pool.quarantine = []
  past : ∀ c now, readAt (s.pc c) = some now → now ≤ s.clock
  sound : Sound cfg s.history
  forced : s.pool.forced = UInt64.ofNat (forcedCount s.history)

theorem owned_initial (cfg : Settings) : Owned cfg (initial cfg : System Client) := by
  have hnil : places (initial cfg : System Client) = fun _ => [] := by
    funext place
    cases place <;> rfl
  refine ⟨?_, fun _ _ _ _ => .inl rfl, ?_, fun _ => rfl, ?_, trivial, rfl⟩
  · rw [hnil]
    exact ⟨exclusive_nil, fun _ p hp => absurd hp List.not_mem_nil⟩
  · exact fun e he => absurd he List.not_mem_nil
  · exact fun c now hnow => absurd hnow (by simp [initial, readAt])

/-- Steps that touch no pair: the clock may move on, clients may move between
locks, and calls may return something other than a pair. -/
theorem Owned.quiet {cfg : Settings} {s s' : System Client} (h : Owned cfg s)
    (hpool : s'.pool = s.pool) (hplaces : places s' = places s) (hclock : s.clock ≤ s'.clock)
    (hpast : ∀ c now, readAt (s'.pc c) = some now → now ≤ s'.clock)
    (hhist : s'.history = s.history ∨ ∃ e, Neutral e ∧ s'.history = e :: s.history) :
    Owned cfg s' := by
  have huse : (fun p => lastUse p s'.history) = fun p => lastUse p s.history := by
    rcases hhist with he | ⟨e, hn, he⟩
    · rw [he]
    · rw [he, neutral_lastUse hn]
  have huse' (p : PortPair) : lastUse p s'.history = lastUse p s.history := congrFun huse p
  refine ⟨?_, ?_, ?_, ?_, hpast, ?_, ?_⟩
  · rw [hplaces, hpool]
    exact h.kept
  · intro p hv hr hc
    rw [hpool] at hr hc
    have hrest := (h.ready p hv hr hc).mono hclock
    rwa [Rested, huse']
  · intro e he
    rw [hpool] at he
    rw [huse']
    exact h.waiting e he
  · rw [hpool]
    exact h.disabled
  · rcases hhist with he | ⟨e, hn, he⟩
    · rw [he]
      exact h.sound
    · rw [he]
      cases e with
      | handOut | released => exact hn.elim
      | refused | counted => exact h.sound
  · rw [hpool, h.forced]
    rcases hhist with he | ⟨e, hn, he⟩
    · rw [he]
    · rw [he]
      cases e with
      | handOut | released => exact hn.elim
      | refused | counted => rfl

section Effects

variable {cfg : Settings} {s : System Client} {p : PortPair}

/-- The front of the queue is given back once its hold is over. -/
theorem Owned.expireFront {freedAt now : Nat} {rest : List (PortPair × Nat)}
    {allocated : Finset UInt16}
    (h : Owned cfg { s with
      pool := { s.pool with
        quarantine := (p, freedAt) :: rest
        allocated := allocated } })
    (hdue : ¬now - freedAt < cfg.hold) (hnow : now ≤ s.clock) :
    Owned cfg { s with
      pool := { s.pool with
        quarantine := rest
        allocated := (allocated.erase p.rtp).erase p.rtcp } } := by
  have hhold : cfg.hold ≠ 0 := fun hz => absurd (h.disabled hz) (List.cons_ne_nil _ _)
  have hpv := (h.kept.marked .quarantine p List.mem_cons_self).1
  refine ⟨?_, ?_, ?_, fun hz => absurd hz hhold, h.past, h.sound, h.forced⟩
  · apply h.kept.drop (i := .quarantine) (List.Perm.refl _)
    intro k hk
    cases k with
    | client c => rfl
    | quarantine => exact absurd rfl hk
  · intro q hqv hqr hqc
    by_cases hne : q = p
    · subst hne
      exact .inr ⟨freedAt, h.waiting (q, freedAt) List.mem_cons_self, by simp only; omega⟩
    · obtain ⟨hr, hc⟩ := mem_unmarked hpv hqv hne
      exact h.ready q hqv (fun hm => hqr (hr.mpr hm)) (fun hm => hqc (hc.mpr hm))
  · exact fun e he => h.waiting e (List.mem_cons_of_mem _ he)

theorem Owned.expire {now : Nat} (hnow : now ≤ s.clock) (queue : List (PortPair × Nat))
    (allocated : Finset UInt16)
    (h : Owned cfg { s with
      pool := { s.pool with
        quarantine := queue
        allocated := allocated } }) :
    Owned cfg { s with
      pool := { s.pool with
        quarantine := (expire cfg.hold now queue allocated).1
        allocated := (expire cfg.hold now queue allocated).2 } } := by
  induction queue generalizing allocated with
  | nil => exact h
  | cons e queue ih =>
      obtain ⟨pair, freedAt⟩ := e
      rw [PortAllocator.expire]
      split
      next hearly => exact h
      next hdue => exact ih _ (h.expireFront hdue hnow)

theorem Owned.locks (h : Owned cfg s) (q a : Option Client) :
    Owned cfg { s with
      quarantineLock := q
      allocatedLock := a } :=
  ⟨h.kept, h.ready, h.waiting, h.disabled, h.past, h.sound, h.forced⟩

theorem Owned.record {e : Event Client} (h : Owned cfg s) (he : Neutral e) :
    Owned cfg (s.record e) :=
  h.quiet rfl rfl le_rfl h.past (.inr ⟨e, he, rfl⟩)

theorem Owned.ne_of_unmarked (h : Owned cfg s) {place : Place Client} (hp : p ∈ places s place)
    {q : PortPair} (hq : q.rtp ∉ s.pool.allocated) : q ≠ p :=
  fun he => hq (he ▸ (h.kept.marked place p hp).2.1)

theorem Owned.ne_of_waiting (h : Owned cfg s) {c : Client} (hp : p ∈ places s (.client c))
    {e : PortPair × Nat} (he : e ∈ s.pool.quarantine) : e.1 ≠ p := by
  intro hep
  have hm : p ∈ places s .quarantine := hep ▸ List.mem_map_of_mem he
  exact absurd (h.kept.exclusive.unique hp hm) (by simp)

variable [DecidableEq Client] {c : Client} {pc : Pc}

@[simp] theorem places_goto_self (s : System Client) :
    places (s.goto c pc) (.client c) = s.held c ++ inHand pc := by
  simp only [places, System.goto, Function.update_self]

theorem places_goto_of_ne (s : System Client) {place : Place Client} (h : place ≠ .client c) :
    places (s.goto c pc) place = places s place := by
  cases place with
  | quarantine => rfl
  | client d =>
      have hd : d ≠ c := fun he => h (congrArg _ he)
      simp only [places, System.goto, Function.update_of_ne hd]

theorem places_held_of_ne (s : System Client) (held : List PortPair) {place : Place Client}
    (h : place ≠ .client c) :
    places { s with held := Function.update s.held c held } place = places s place := by
  cases place with
  | quarantine => rfl
  | client d =>
      have hd : d ≠ c := fun he => h (congrArg _ he)
      simp only [places, Function.update_of_ne hd]

theorem past_goto {clock : Nat} (h : ∀ d now, readAt (s.pc d) = some now → now ≤ clock)
    (hpc : ∀ now, readAt pc = some now → now ≤ clock) :
    ∀ d now, readAt ((s.goto c pc).pc d) = some now → now ≤ clock := by
  intro d now hnow
  by_cases hd : d = c
  · subst hd
    simp only [System.goto, Function.update_self] at hnow
    exact hpc now hnow
  · simp only [System.goto, Function.update_of_ne hd] at hnow
    exact h d now hnow

theorem Owned.goto (h : Owned cfg s) (hhand : inHand pc = inHand (s.pc c))
    (hpc : ∀ now, readAt pc = some now → now ≤ s.clock) : Owned cfg (s.goto c pc) := by
  refine h.quiet rfl ?_ le_rfl (past_goto h.past hpc) (.inl rfl)
  funext place
  by_cases hplace : place = .client c
  · rw [hplace, places_goto_self, hhand]
    rfl
  · exact places_goto_of_ne s hplace

theorem Owned.takeFree (h : Owned cfg s) (hpc : s.pc c = .choosing) {pool : Pool}
    (ht : PortAllocator.takeFree cfg s.pool = (some p, pool)) (lock : Option Client) :
    Owned cfg (({ s with
      pool := pool
      allocatedLock := lock }.handOut c p false).goto c .idle) := by
  obtain ⟨hv, hr, hc, halloc, hqueue, hforced⟩ := takeFree_some ht
  have hin {q : PortPair} (hq : q.rtp ∉ pool.allocated) : q.rtp ∉ s.pool.allocated ∧ q ≠ p := by
    rw [halloc] at hq
    refine ⟨fun hm => hq (Finset.mem_insert_of_mem (Finset.mem_insert_of_mem hm)), fun he => hq ?_⟩
    rw [he]
    exact Finset.mem_insert_of_mem (Finset.mem_insert_self _ _)
  have huse {q : PortPair} (hne : q ≠ p) :
      lastUse q (.handOut c p false s.clock :: s.history) = lastUse q s.history :=
    if_neg hne.symm
  refine ⟨?_, ?_, ?_, ?_, past_goto h.past (by simp [readAt]), ⟨hv, fun _ => h.ready p hv hr hc, h.sound⟩, ?_⟩
  · change Kept cfg _ pool.allocated
    rw [halloc]
    refine h.kept.take hv hr (i := .client c) ?_ fun k hk => ?_
    · rw [places_goto_self]
      simp [System.handOut, places, inHand, hpc]
    · rw [places_goto_of_ne _ hk]
      refine (places_held_of_ne _ _ hk).trans ?_
      cases k with
      | client d => rfl
      | quarantine => exact congrArg _ hqueue
  · intro q hqv hqr hqc
    obtain ⟨hqr', hne⟩ := hin hqr
    have hqc' : q.rtcp ∉ s.pool.allocated := by
      intro hm
      apply hqc
      change q.rtcp ∈ pool.allocated
      rw [halloc]
      exact Finset.mem_insert_of_mem (Finset.mem_insert_of_mem hm)
    have hrest := h.ready q hqv hqr' hqc'
    rw [Rested, ← huse hne] at hrest
    exact hrest
  · intro e he
    replace he : e ∈ s.pool.quarantine := hqueue ▸ he
    have hne : e.1 ≠ p := by
      intro hep
      exact hr (h.kept.marked .quarantine p (hep ▸ List.mem_map_of_mem he)).2.1
    exact (huse hne).trans (h.waiting e he)
  · intro hz
    exact hqueue.trans (h.disabled hz)
  · exact hforced.trans h.forced

theorem Owned.popOldest (h : Owned cfg s) (hpc : s.pc c = .forcing) {pool : Pool}
    (ht : PortAllocator.popOldest s.pool = (some p, pool)) :
    Owned cfg ({ s with pool := pool }.goto c (.counting p)) := by
  rw [PortAllocator.popOldest] at ht
  split at ht
  · cases ht
  next pair freedAt rest hq =>
    cases ht
    have hhold : cfg.hold ≠ 0 := fun hz => absurd (h.disabled hz) (by simp [hq])
    refine ⟨?_, h.ready, fun e he => h.waiting e (by rw [hq]; exact List.mem_cons_of_mem _ he),
      fun hz => absurd hz hhold, past_goto h.past (by simp [readAt]), h.sound, h.forced⟩
    refine h.kept.move (i := .quarantine) (j := .client c) (by simp) (p := p) ?_ ?_ fun k hk hkc => ?_
    · rw [places_goto_of_ne _ (by simp)]
      simp [places, hq]
    · rw [places_goto_self]
      simp only [places, inHand, hpc, List.append_nil]
      exact List.perm_append_singleton _ _
    · rw [places_goto_of_ne _ hkc]
      cases k with
      | client d => rfl
      | quarantine => exact absurd rfl hk

theorem Owned.handOutForced (h : Owned cfg s) (hpc : s.pc c = .counting p) :
    Owned cfg (({ s with
      pool := { s.pool with forced := s.pool.forced + 1 } }.handOut c p true).goto c .idle) := by
  have hmem : p ∈ places s (.client c) := by simp [places, hpc, inHand]
  have huse {q : PortPair} (hne : q ≠ p) :
      lastUse q (.handOut c p true s.clock :: s.history) = lastUse q s.history :=
    if_neg hne.symm
  refine ⟨h.kept.perm fun k => ?_, ?_, ?_, h.disabled, past_goto h.past (by simp [readAt]),
    ⟨(h.kept.marked _ p hmem).1, by simp, h.sound⟩, ?_⟩
  · by_cases hk : k = .client c
    · rw [hk, places_goto_self]
      simp only [System.handOut, places, inHand, hpc, Function.update_self, List.append_nil]
      exact (List.perm_append_singleton _ _).symm
    · rw [places_goto_of_ne _ hk]
      exact .of_eq (places_held_of_ne _ _ hk)
  · intro q hqv hqr hqc
    have hrest := h.ready q hqv hqr hqc
    rw [Rested, ← huse (h.ne_of_unmarked hmem hqr)] at hrest
    exact hrest
  · intro e he
    exact (huse (h.ne_of_waiting hmem he)).trans (h.waiting e he)
  · change s.pool.forced + 1 = UInt64.ofNat (forcedCount s.history + 1)
    rw [h.forced, UInt64.ofNat_add]
    rfl

theorem Owned.beginRelease (h : Owned cfg s) (hpc : s.pc c = .idle) (hp : p ∈ s.held c) :
    Owned cfg ({ s with
      held := Function.update s.held c ((s.held c).erase p) }.goto c (.releasing p)) := by
  refine ⟨h.kept.perm fun k => ?_, h.ready, h.waiting, h.disabled,
    past_goto h.past (by simp [readAt]), h.sound, h.forced⟩
  by_cases hk : k = .client c
  · rw [hk, places_goto_self]
    simp only [places, inHand, hpc, Function.update_self, List.append_nil]
    exact (List.perm_append_singleton _ _).trans (List.perm_cons_erase hp).symm
  · rw [places_goto_of_ne _ hk]
    exact .of_eq (places_held_of_ne _ _ hk)

theorem Owned.releaseNow (h : Owned cfg s) (hpc : s.pc c = .releasing p) (hz : cfg.hold = 0) :
    Owned cfg (({ s with pool := unmark s.pool p }.record (.released c p s.clock)).goto c .idle) := by
  have hmem : p ∈ places s (.client c) := by simp [places, hpc, inHand]
  have hpv := (h.kept.marked _ p hmem).1
  refine ⟨?_, ?_, ?_, h.disabled, past_goto h.past (by simp [readAt]), h.sound, h.forced⟩
  · refine h.kept.drop (i := .client c) ?_ fun k hk => ?_
    · rw [places_goto_self]
      simp [System.record, places, inHand, hpc]
    · rw [places_goto_of_ne _ hk]
      cases k <;> rfl
  · intro q hqv hqr hqc
    by_cases hne : q = p
    · exact .inr ⟨s.clock, if_pos hne.symm, by rw [hz]; exact le_rfl⟩
    · obtain ⟨hr, hc⟩ := mem_unmarked hpv hqv hne
      have hrest := h.ready q hqv (fun hm => hqr (hr.mpr hm)) (fun hm => hqc (hc.mpr hm))
      have huse : lastUse q (.released c p s.clock :: s.history) = lastUse q s.history :=
        if_neg (Ne.symm hne)
      rw [Rested, ← huse] at hrest
      exact hrest
  · intro e he
    replace he : e ∈ s.pool.quarantine := he
    rw [h.disabled hz] at he
    exact absurd he List.not_mem_nil

/-- With a hold the pair goes to the back of the queue. The test for a pair that
is there already never succeeds. -/
theorem Owned.releaseHeld (h : Owned cfg s) (hpc : s.pc c = .releasing p) (hhold : cfg.hold ≠ 0) :
    Owned cfg (({ s with pool := enqueue s.pool p s.clock }.record
      (.released c p s.clock)).goto c .idle) := by
  have hmem : p ∈ places s (.client c) := by simp [places, hpc, inHand]
  have habsent : ¬(s.pool.quarantine.any fun e => e.1 = p) = true := by
    rw [List.any_eq_true]
    rintro ⟨e, he, hep⟩
    exact h.ne_of_waiting hmem he (by simpa using hep)
  have huse {q : PortPair} (hne : q ≠ p) :
      lastUse q (.released c p s.clock :: s.history) = lastUse q s.history :=
    if_neg hne.symm
  rw [enqueue, if_neg habsent]
  refine ⟨?_, ?_, ?_, fun hz => absurd hz hhold, past_goto h.past (by simp [readAt]), h.sound, h.forced⟩
  · refine h.kept.move (i := .client c) (j := .quarantine) (by simp) (p := p) ?_ ?_ fun k hkc hk => ?_
    · rw [places_goto_self]
      simp [System.record, places, inHand, hpc]
    · rw [places_goto_of_ne _ (by simp)]
      simp only [System.record, places, List.map_append, List.map_singleton]
      exact List.perm_append_singleton _ _
    · rw [places_goto_of_ne _ hkc]
      cases k with
      | client d => rfl
      | quarantine => exact absurd rfl hk
  · intro q hqv hqr hqc
    have hrest := h.ready q hqv hqr hqc
    rw [Rested, ← huse (h.ne_of_unmarked hmem hqr)] at hrest
    exact hrest
  · intro e he
    rcases List.mem_append.mp he with he | he
    · exact (huse (h.ne_of_waiting hmem he)).trans (h.waiting e he)
    · rw [List.mem_singleton.mp he]
      exact if_pos rfl

end Effects

section Runs

variable {cfg : Settings} [DecidableEq Client] {s s' : System Client}

theorem afterSweep_quiet (call : Call) : inHand call.afterSweep = [] ∧ readAt call.afterSweep = none := by
  cases call <;> exact ⟨rfl, rfl⟩

theorem Owned.resume (h : Owned cfg s) {c : Client} (hs : resume cfg s c = some s') : Owned cfg s' := by
  have quiet {call : Call} {clock : Nat} (now : Nat) (hn : readAt call.afterSweep = some now) : now ≤ clock := by
    rw [(afterSweep_quiet call).2] at hn
    cases hn
  rw [PortSystem.resume] at hs
  cases hpc : s.pc c with
  | idle => simp [hpc] at hs
  | sweeping call now =>
      simp only [hpc] at hs
      split at hs
      · cases hs
      · split at hs
        · cases hs
          exact h.goto (by rw [(afterSweep_quiet call).1, hpc]; rfl) quiet
        · cases hs
          have hl := h.locks (some c) s.allocatedLock
          refine hl.goto (by rw [hpc]; rfl) fun t ht => ?_
          cases ht
          exact h.past c now (by rw [hpc]; rfl)
  | expiring call now =>
      simp only [hpc] at hs
      split at hs
      · cases hs
      · cases hs
        have hx := h.expire (h.past c now (by rw [hpc]; rfl)) s.pool.quarantine s.pool.allocated
        have hl := hx.locks none s.allocatedLock
        exact hl.goto (by rw [(afterSweep_quiet call).1, hpc]; rfl) quiet
  | searching =>
      simp only [hpc] at hs
      split at hs
      · cases hs
      · cases hs
        have hl := h.locks s.quarantineLock (some c)
        exact hl.goto (by rw [hpc]; rfl) (by simp [readAt])
  | choosing =>
      simp only [hpc] at hs
      split at hs
      next pair pool ht =>
        cases hs
        exact h.takeFree hpc ht none
      next pool ht =>
        cases hs
        rw [takeFree_none ht]
        have hl := h.locks s.quarantineLock none
        exact hl.goto (by rw [hpc]; rfl) (by simp [readAt])
  | forcing =>
      simp only [hpc] at hs
      split at hs
      · cases hs
      · split at hs
        next pair pool ht =>
          cases hs
          exact h.popOldest hpc ht
        next pool ht =>
          cases hs
          rw [popOldest_none ht]
          have hr := h.record (e := .refused c (.transport "No available ports in range")) trivial
          exact hr.goto (by rw [System.record, hpc]; rfl) (by simp [readAt])
  | counting pair =>
      simp only [hpc] at hs
      cases hs
      exact h.handOutForced hpc
  | reading =>
      simp only [hpc] at hs
      split at hs
      · cases hs
      · cases hs
        have hr := h.record (e := .counted c s.pool.quarantine.length) trivial
        exact hr.goto (by rw [System.record, hpc]; rfl) (by simp [readAt])
  | releasing pair =>
      simp only [hpc] at hs
      split at hs
      next hz =>
        split at hs
        · cases hs
        · cases hs
          exact h.releaseNow hpc hz
      next hhold =>
        split at hs
        · cases hs
        · cases hs
          exact h.releaseHeld hpc hhold

theorem Owned.step (h : Owned cfg s) {a : Action Client} (hs : step cfg s a = some s') : Owned cfg s' := by
  cases a with
  | pass ticks =>
      cases hs
      refine h.quiet rfl rfl (Nat.le_add_right _ _) (fun c now hnow => ?_) (.inl rfl)
      exact (h.past c now hnow).trans (Nat.le_add_right _ _)
  | call c call =>
      rw [PortSystem.step] at hs
      split at hs
      next hpc =>
        cases hs
        refine h.goto (by rw [hpc]; rfl) fun now hnow => ?_
        cases hnow
        exact le_rfl
      next => cases hs
  | release c pair =>
      rw [PortSystem.step] at hs
      split at hs
      next hpc =>
        cases hs
        exact h.beginRelease hpc.1 hpc.2
      next => cases hs
  | resume c => exact h.resume hs

theorem Owned.run {actions : List (Action Client)} (h : Owned cfg s)
    (hs : run cfg s actions = some s') : Owned cfg s' := by
  induction actions generalizing s with
  | nil =>
      cases hs
      exact h
  | cons a actions ih =>
      rw [PortSystem.run, Option.bind_eq_some_iff] at hs
      obtain ⟨next, ha, hs⟩ := hs
      exact ih (h.step ha) hs

omit [DecidableEq Client] in
theorem Sound.handOut {later earlier : List (Event Client)} {c : Client} {p : PortPair}
    {forced : Bool} {time : Nat} (h : Sound cfg (later ++ .handOut c p forced time :: earlier)) :
    Valid cfg p ∧ (forced = false → Rested cfg.hold earlier p time) := by
  induction later with
  | nil => exact ⟨h.1, h.2.1⟩
  | cons e later ih =>
      cases e with
      | handOut => exact ih h.2.2
      | refused | counted | released => exact ih h

end Runs

/-- In every state of every schedule: a port is in the hands of one client at
most; what was handed out is an even port and the next one, inside the range;
what was handed out without force was unused or had waited out its hold; and
the 64-bit counter has counted the forced hand-outs. -/
theorem port_pairs_owned_exclusively [DecidableEq Client] (cfg : Settings)
    {actions : List (Action Client)} {s : System Client}
    (hs : run cfg (initial cfg) actions = some s) :
    (∀ c c' p p', p ∈ s.held c → p' ∈ s.held c' → SharesPort p p' → c = c' ∧ p = p') ∧
    (∀ c, (s.held c).Nodup) ∧
    (∀ later earlier c p forced time, s.history = later ++ .handOut c p forced time :: earlier →
      Valid cfg p ∧ (forced = false → Rested cfg.hold earlier p time)) ∧
    s.pool.forced.toNat = forcedCount s.history % 2 ^ 64 := by
  have h := (owned_initial cfg).run hs
  refine ⟨?_, ?_, ?_, ?_⟩
  · intro c c' p p' hp hp' hshare
    have hm : p ∈ places s (.client c) := List.mem_append_left _ hp
    have hm' : p' ∈ places s (.client c') := List.mem_append_left _ hp'
    have heq := (h.kept.marked _ p hm).1.eq_of_sharesPort (h.kept.marked _ p' hm').1 hshare
    subst heq
    exact ⟨Place.client.inj (h.kept.exclusive.unique hm hm'), rfl⟩
  · intro c
    exact (List.nodup_append.mp (h.kept.exclusive.nodup (.client c))).1
  · intro later earlier c p forced time he
    have hsound := h.sound
    rw [he] at hsound
    exact hsound.handOut
  · rw [h.forced, UInt64.toNat_ofNat']

/-- Two clients race for a range of two pairs. -/
def raceActions : List (Action Bool) :=
  [.call false .allocate, .call true .allocate, .resume false, .resume true, .resume false,
    .resume false, .resume true, .resume true]

def raceSettings : Settings := ⟨10000, 10004, 5⟩

theorem race_first : takeFree raceSettings ⟨∅, [], 10000, 0⟩ =
    (some ⟨10000, 10001⟩, ⟨{10001, 10000}, [], 10002, 0⟩) := by
  rw [takeFree, search]
  rfl

theorem race_second : takeFree raceSettings ⟨{10001, 10000}, [], 10002, 0⟩ =
    (some ⟨10002, 10003⟩, ⟨{10003, 10002, 10001, 10000}, [], 10004, 0⟩) := by
  rw [takeFree, search]
  rfl

theorem race_run : (run raceSettings (initial raceSettings) raceActions).map
    (fun s => (s.held false, s.held true)) = some ([⟨10000, 10001⟩], [⟨10002, 10003⟩]) := by
  have hinit : withRangeAndHold raceSettings = ⟨∅, [], 10000, 0⟩ := rfl
  simp [raceActions, run, step, resume, initial, hinit, System.goto, System.handOut, race_first,
    race_second, Call.afterSweep, Function.update]

theorem port_pairs_owned_exclusively_in_race :
    ∃ s, run raceSettings (initial raceSettings) raceActions = some s ∧
      s.held false = [⟨10000, 10001⟩] ∧ s.held true = [⟨10002, 10003⟩] ∧
      ∀ c c' p p', p ∈ s.held c → p' ∈ s.held c' → SharesPort p p' → c = c' ∧ p = p' := by
  obtain ⟨s, hs, hheld⟩ := Option.map_eq_some_iff.mp race_run
  obtain ⟨hfalse, htrue⟩ := Prod.mk.inj hheld
  exact ⟨s, hs, hfalse, htrue, (port_pairs_owned_exclusively raceSettings hs).1⟩

end NixiSbc.PortOwnership

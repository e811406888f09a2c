import NixiSbc.Bans
import NixiSbc.StateRuns

namespace NixiSbc.BanHistory

open KeyedTable NetAddr TimeQueue StateRuns Bans

inductive Call
  | recordFailure (ip : IpAddr) (reason : List Char)
  | isBanned (ip : IpAddr)
  | pruneStaleWindows
  | cleanupExpired

/-- What an observer of one address remembers of the whole history, with no
table and no pruning: every strike since the last ban, when that ban ends and
when it was issued, and since the last forgetting how many bans there were and
how long the last of them was. -/
structure Watch where
  strikes : List Nat
  bannedUntil : Nat
  lastBan : Option Nat
  offenses : Nat
  lastSecs : Option Nat

def Watch.start : Watch := ⟨[], 0, none, 0, none⟩

def threshold (config : BanConfig) : Nat := max 1 config.maxFailures.toNat

/-- The length of the ban for the offense of this number. -/
def escalated (config : BanConfig) (k : Nat) : Nat :=
  min (config.banDurationSecs.toNat *
    min ((max 1 config.repeatOffenderMultiplier.toNat) ^ (k - 1)) u32Max) config.maxBanSecs.toNat

/-- The strikes of the window, with one that is made now. -/
def Watch.inWindow (w : Watch) (config : BanConfig) (now : Clock) : List Nat :=
  recent (window config) now.instant (w.strikes ++ [now.instant])

/-- The seconds of the ban that a failure earns now. -/
def Watch.due (w : Watch) (config : BanConfig) (now : Clock) : Option Nat :=
  if now.system < w.bannedUntil then none
  else if threshold config ≤ (w.inWindow config now).length then
    some (escalated config (w.offenses + 1))
  else none

def Watch.failure (w : Watch) (config : BanConfig) (now : Clock) : Watch :=
  if now.system < w.bannedUntil then w
  else
    match w.due config now with
    | some secs => ⟨[], now.system + secs * second, some now.instant, w.offenses + 1, some secs⟩
    | none => { w with strikes := w.strikes ++ [now.instant] }

def Watch.forget (w : Watch) : Watch := { w with offenses := 0, lastSecs := none }

/-- No ban in force, and no ban or strike for longer than offenders are remembered. -/
def Watch.Quiet (w : Watch) (config : BanConfig) (now : Clock) : Prop :=
  w.bannedUntil ≤ now.system ∧ (∀ t ∈ w.lastBan, forgetAfter config < now.instant - t) ∧
    ∀ t ∈ w.strikes, forgetAfter config < now.instant - t

/-- The manager with the observer of one address and the time of the last call. -/
structure Observed where
  manager : BanManager
  watch : Watch
  clock : Clock

/-- The sweep drops the offense counter of the address. -/
def forgets (m : BanManager) (now : Clock) (ip : IpAddr) : Bool :=
  (m.offenses.lookup ip).any (isCold m now ip)

section

variable (N : Networks) (ip : IpAddr)

def stepManager (m : BanManager) (now : Clock) : Call → BanManager
  | .recordFailure ip' reason => (recordFailure N m now ip' reason).2
  | .isBanned ip' => (isBanned m now ip').2
  | .pruneStaleWindows => (pruneStaleWindows m now).2
  | .cleanupExpired => (cleanupExpired m now).2

def stepWatch (m : BanManager) (w : Watch) (now : Clock) : Call → Watch
  | .recordFailure ip' _ => if ip' = ip then w.failure m.config now else w
  | .pruneStaleWindows => if forgets m now ip then w.forget else w
  | _ => w

def step (s : Observed) (e : Clock × Call) : Observed :=
  ⟨stepManager N s.manager e.1 e.2, stepWatch ip s.manager s.watch e.1 e.2, e.1⟩

end

def InOrder (s : Observed) (e : Clock × Call) : Prop :=
  s.clock.instant ≤ e.1.instant ∧ s.clock.system ≤ e.1.system

/-- The entry for a ban of so many seconds. -/
def issued (config : BanConfig) (now : Clock) (ip : IpAddr) (reason : List Char)
    (secs offense : Nat) : BanEntry :=
  ⟨ip, reason, now.system, now.system + secs * second, UInt32.ofNat (threshold config), false,
    UInt32.ofNat offense⟩

/-- The answer that the history calls for. -/
def answer (config : BanConfig) (w : Watch) (now : Clock) (ip : IpAddr) (reason : List Char) : Struck :=
  match w.due config now with
  | some secs => .banned (issued config now ip reason secs (w.offenses + 1))
  | none => .passed

/-- The call decides what the history of the address says. -/
def Decides (N : Networks) (ip : IpAddr) (s : Observed) : Clock × Call → Prop
  | (now, .recordFailure ip' reason) => ip' = ip →
      (recordFailure N s.manager now ip reason).1 =
        answer s.manager.config s.watch now ip reason ∧
      ∀ secs ∈ s.watch.due s.manager.config now, ∀ last ∈ s.watch.lastSecs, last ≤ secs
  | (now, .isBanned ip') => ip' = ip →
      (isBanned s.manager now ip).1 = decide (now.system < s.watch.bannedUntil)
  | (now, .pruneStaleWindows) => forgets s.manager now ip = true →
      s.watch.Quiet s.manager.config now
  | (_, .cleanupExpired) => True

/-- A ban that falls due has a number and an end that can be written down, and
an offender whose last ban is long over and who is forgotten now has not struck
since for as long. -/
def Regular (ip : IpAddr) (s : Observed) : Clock × Call → Prop
  | (now, .recordFailure ip' _) => ip' = ip →
      ∀ secs ∈ s.watch.due s.manager.config now,
        s.watch.offenses + 1 < 2 ^ 32 ∧ now.system / second + secs < 2 ^ 63
  | (now, .pruneStaleWindows) => forgets s.manager now ip = true →
      ∀ t ∈ s.watch.strikes, forgetAfter s.manager.config < now.instant - t
  | _ => True

instance decidableInOrder (s : Observed) (e : Clock × Call) : Decidable (InOrder s e) :=
  inferInstanceAs (Decidable (_ ∧ _))

instance decidableQuiet (w : Watch) (config : BanConfig) (now : Clock) :
    Decidable (w.Quiet config now) :=
  inferInstanceAs (Decidable (_ ∧ _ ∧ _))

instance decidableDecides (N : Networks) (ip : IpAddr) (s : Observed) :
    ∀ e, Decidable (Decides N ip s e)
  | (_, .recordFailure ..) => inferInstanceAs (Decidable (_ → _ ∧ _))
  | (_, .isBanned _) => inferInstanceAs (Decidable (_ → _))
  | (_, .pruneStaleWindows) => inferInstanceAs (Decidable (_ → _))
  | (_, .cleanupExpired) => inferInstanceAs (Decidable True)

instance decidableRegular (ip : IpAddr) (s : Observed) : ∀ e, Decidable (Regular ip s e)
  | (_, .recordFailure ..) => inferInstanceAs (Decidable (_ → _))
  | (_, .isBanned _) => inferInstanceAs (Decidable True)
  | (_, .pruneStaleWindows) => inferInstanceAs (Decidable (_ → _))
  | (_, .cleanupExpired) => inferInstanceAs (Decidable True)

/-- What the manager holds about the address agrees with the observer. -/
structure Tracks (config : BanConfig) (ip : IpAddr) (s : Observed) : Prop where
  config_eq : s.manager.config = config
  strikes : Follows (window config) s.clock.instant (strikesOf s.manager ip) s.watch.strikes
  few : (strikesOf s.manager ip).length < threshold config
  banned : ∀ e, s.manager.bans.lookup ip = some e → e.expiresAt = s.watch.bannedUntil
  unbanned : s.manager.bans.lookup ip = none → s.watch.bannedUntil ≤ s.clock.system
  offender : ∀ o, s.manager.offenses.lookup ip = some o →
    o.count.toNat = s.watch.offenses ∧ s.watch.lastBan = some o.last
  clean : s.manager.offenses.lookup ip = none → s.watch.offenses = 0
  secs : ∀ secs ∈ s.watch.lastSecs, secs = escalated config s.watch.offenses

theorem threshold_pos (config : BanConfig) : 0 < threshold config :=
  lt_of_lt_of_le Nat.zero_lt_one (le_max_left 1 _)

theorem threshold_lt (config : BanConfig) : threshold config < 2 ^ 32 :=
  max_lt (by decide) config.maxFailures.toNat_lt

theorem escalated_mono (config : BanConfig) (k : Nat) :
    escalated config k ≤ escalated config (k + 1) := by
  have hpow : (max 1 config.repeatOffenderMultiplier.toNat) ^ (k - 1) ≤
      (max 1 config.repeatOffenderMultiplier.toNat) ^ (k + 1 - 1) :=
    Nat.pow_le_pow_right (le_max_left 1 _) (by omega)
  exact min_le_min_right _ (Nat.mul_le_mul_left _ (min_le_min_right _ hpow))

/-- The code's saturating arithmetic comes to the plain formula, as long as the
number of the offense is kept. -/
theorem banSecs_eq (config : BanConfig) {k : Nat} (hk : k + 1 < 2 ^ 32) :
    banSecs config (UInt32.ofNat (k + 1)) = escalated config (k + 1) := by
  have hoff : (UInt32.ofNat (k + 1)).toNat = k + 1 := UInt32.toNat_ofNat_of_lt' hk
  have hfactor : factor config (UInt32.ofNat (k + 1)) =
      min ((max 1 config.repeatOffenderMultiplier.toNat) ^ (k + 1 - 1)) u32Max := by
    rw [factor, hoff, Nat.add_sub_cancel]
    rcases Nat.eq_zero_or_pos config.repeatOffenderMultiplier.toNat with hzero | hpos
    · rw [hzero, Nat.max_eq_left (Nat.zero_le 1), Nat.one_pow]
      cases k with
      | zero => rfl
      | succ k => rw [Nat.zero_pow k.succ_pos]; rfl
    · rw [Nat.max_eq_right (show 1 ≤ config.repeatOffenderMultiplier.toNat from hpos)]
      exact Nat.max_eq_left (le_min (Nat.one_le_pow _ _ hpos) (by decide))
  have hmax : config.maxBanSecs.toNat ≤ u64Max := Nat.le_sub_one_of_lt config.maxBanSecs.toNat_lt
  rw [banSecs, hfactor, escalated, min_assoc, min_eq_right hmax]

section Steps

variable {N : Networks} {config : BanConfig} {ip : IpAddr} {m : BanManager} {w : Watch}
  {clock now : Clock}

/-- The observer only needs what the manager holds about its address. -/
theorem Tracks.congr {m' : BanManager} (h : Tracks config ip ⟨m, w, clock⟩)
    (hconfig : m'.config = m.config) (hfail : m'.failures.lookup ip = m.failures.lookup ip)
    (hban : m'.bans.lookup ip = m.bans.lookup ip)
    (hoff : m'.offenses.lookup ip = m.offenses.lookup ip) : Tracks config ip ⟨m', w, clock⟩ where
  config_eq := hconfig.trans h.config_eq
  strikes := by
    have := h.strikes
    simpa only [strikesOf, hfail] using this
  few := by
    have := h.few
    simpa only [strikesOf, hfail] using this
  banned e he := h.banned e (hban ▸ he)
  unbanned he := h.unbanned (hban ▸ he)
  offender o ho := h.offender o (hoff ▸ ho)
  clean ho := h.clean (hoff ▸ ho)
  secs := h.secs

theorem Tracks.later (h : Tracks config ip ⟨m, w, clock⟩) (hi : clock.instant ≤ now.instant)
    (hs : clock.system ≤ now.system) : Tracks config ip ⟨m, w, now⟩ :=
  { h with strikes := h.strikes.mono hi, unbanned := fun he => (h.unbanned he).trans hs }

theorem look_of_tracks (h : Tracks config ip ⟨m, w, now⟩) :
    look m now ip = .banned ↔ now.system < w.bannedUntil := by
  rw [look]
  cases hb : m.bans.lookup ip with
  | none =>
      have := h.unbanned hb
      constructor
      · intro hcase
        cases hcase
      · intro hlt
        exact absurd hlt (not_lt.mpr this)
  | some e =>
      have he := h.banned e hb
      rw [← he]
      change (if e.isExpired now then Look.expired else Look.banned) = Look.banned ↔ _
      by_cases hexp : e.isExpired now = true
      · simp only [hexp, if_true, reduceCtorEq, false_iff, not_lt]
        exact of_decide_eq_true hexp
      · simp only [hexp, Bool.false_eq_true, if_false, true_iff]
        exact not_le.mp fun hle => hexp (decide_eq_true hle)

theorem isBanned_of_tracks (hon : config.enabled = true) (h : Tracks config ip ⟨m, w, now⟩) :
    (isBanned m now ip).1 = decide (now.system < w.bannedUntil) := by
  have hen : m.config.enabled = true := h.config_eq ▸ hon
  have hlook := look_of_tracks h
  rw [isBanned, if_pos hen]
  cases hl : look m now ip with
  | banned => exact (decide_eq_true (hlook.mp hl)).symm
  | expired =>
      exact (decide_eq_false fun hlt => Look.noConfusion (hl.symm.trans (hlook.mpr hlt))).symm
  | free => exact (decide_eq_false fun hlt => Look.noConfusion (hl.symm.trans (hlook.mpr hlt))).symm

/-- Losing an expired ban is not noticed. -/
theorem Tracks.removeExpired (m' : BanManager) (h : Tracks config ip ⟨m, w, now⟩)
    (hconfig : m'.config = m.config) (hfail : m'.failures = m.failures)
    (hoff : m'.offenses = m.offenses)
    (hban : m'.bans.lookup ip = m.bans.lookup ip ∨
      m'.bans.lookup ip = none ∧ ∃ e, m.bans.lookup ip = some e ∧ e.isExpired now = true) :
    Tracks config ip ⟨m', w, now⟩ := by
  rcases hban with hsame | ⟨hnone, e, he, hexp⟩
  · exact h.congr hconfig (by rw [hfail]) hsame (by rw [hoff])
  · have hend : w.bannedUntil ≤ now.system := h.banned e he ▸ of_decide_eq_true hexp
    exact
      { config_eq := hconfig.trans h.config_eq
        strikes := by
          have := h.strikes
          simpa only [strikesOf, hfail] using this
        few := by
          have := h.few
          simpa only [strikesOf, hfail] using this
        banned := fun e' he' => by
          rw [hnone] at he'
          cases he'
        unbanned := fun _ => hend
        offender := fun o ho => h.offender o (hoff ▸ ho)
        clean := fun ho => h.clean (hoff ▸ ho)
        secs := h.secs }

theorem Tracks.isBanned (h : Tracks config ip ⟨m, w, now⟩) (ip' : IpAddr) :
    Tracks config ip ⟨(Bans.isBanned m now ip').2, w, now⟩ := by
  rw [Bans.isBanned]
  split
  · cases hl : look m now ip' with
    | banned => exact h
    | free => exact h
    | expired =>
        apply h.removeExpired (removeBan m ip') rfl rfl rfl
        by_cases hip : ip = ip'
        · subst hip
          exact .inr ⟨AList.lookup_erase ip m.bans, look_eq_expired hl⟩
        · exact .inl (AList.lookup_erase_ne hip)
  · exact h

theorem Tracks.cleanupExpired (h : Tracks config ip ⟨m, w, now⟩) :
    Tracks config ip ⟨(Bans.cleanupExpired m now).2, w, now⟩ := by
  apply h.removeExpired (Bans.cleanupExpired m now).2 rfl rfl rfl
  rw [Bans.cleanupExpired, lookup_sweep]
  cases hb : m.bans.lookup ip with
  | none => exact .inl rfl
  | some e =>
      by_cases hexp : e.isExpired now = true
      · exact .inr ⟨by simp [hexp], e, rfl, hexp⟩
      · exact .inl (by simp [hexp])

theorem punish_config (m : BanManager) (now : Clock) (ip : IpAddr) (reason : List Char)
    (count : UInt32) : (punish m now ip reason count).2.config = m.config := by
  rw [punish]
  split
  next => rfl
  next => rfl

/-- The punishment of one address is not noticed by another. -/
theorem punish_other {ip' : IpAddr} (hne : ip ≠ ip') (m : BanManager) (now : Clock)
    (reason : List Char) (count : UInt32) :
    (punish m now ip' reason count).2.failures.lookup ip = m.failures.lookup ip ∧
      (punish m now ip' reason count).2.bans.lookup ip = m.bans.lookup ip ∧
      (punish m now ip' reason count).2.offenses.lookup ip = m.offenses.lookup ip := by
  rw [punish]
  split
  next => exact ⟨AList.lookup_erase_ne hne, AList.lookup_insert_ne hne, AList.lookup_insert_ne hne⟩
  next => exact ⟨AList.lookup_erase_ne hne, rfl, AList.lookup_insert_ne hne⟩

theorem Tracks.recordFailure_other (h : Tracks config ip ⟨m, w, now⟩) {ip' : IpAddr} (hne : ip ≠ ip')
    (reason : List Char) : Tracks config ip ⟨(recordFailure N m now ip' reason).2, w, now⟩ := by
  simp only [recordFailure]
  split
  · exact h
  · have hlooked := h.isBanned ip'
    have hstruck : Tracks config ip ⟨(strike (Bans.isBanned m now ip').2 now ip').2, w, now⟩ :=
      hlooked.congr rfl (AList.lookup_insert_ne hne) rfl rfl
    split
    · exact hlooked
    · split
      · exact hstruck
      · obtain ⟨hfail, hban, hoff⟩ := punish_other hne
          (strike (Bans.isBanned m now ip').2 now ip').2 now reason
          (strike (Bans.isBanned m now ip').2 now ip').1
        exact hstruck.congr (punish_config ..) hfail hban hoff

theorem strikesOf_prune (m : BanManager) (now : Clock) (ip : IpAddr) :
    strikesOf (pruneStaleWindows m now).2 ip =
      if isStale m now (strikesOf m ip) then [] else strikesOf m ip := by
  rw [strikesOf, pruneStaleWindows, lookup_sweep, strikesOf]
  cases m.failures.lookup ip with
  | none => exact (ite_self _).symm
  | some q =>
      rw [Option.bind_some, Option.getD_some]
      split
      next => rfl
      next => rfl

theorem offenses_prune (m : BanManager) (now : Clock) (ip : IpAddr) :
    (pruneStaleWindows m now).2.offenses.lookup ip =
      if forgets m now ip then none else m.offenses.lookup ip := by
  rw [pruneStaleWindows, lookup_sweep, forgets]
  cases m.offenses.lookup ip with
  | none => exact (ite_self _).symm
  | some o => rw [Option.bind_some, Option.any_some]

theorem Tracks.pruneStaleWindows (h : Tracks config ip ⟨m, w, now⟩) :
    Tracks config ip ⟨(Bans.pruneStaleWindows m now).2,
      if forgets m now ip then w.forget else w, now⟩ := by
  have hfollows : Follows (window config) now.instant (strikesOf (Bans.pruneStaleWindows m now).2 ip)
      w.strikes := by
    rw [strikesOf_prune]
    split
    next hstale =>
      rw [isStale, h.config_eq] at hstale
      exact h.strikes.drop hstale
    next => exact h.strikes
  have hfew : (strikesOf (Bans.pruneStaleWindows m now).2 ip).length < threshold config := by
    rw [strikesOf_prune]
    split
    next => exact threshold_pos config
    next => exact h.few
  have hoffenses := offenses_prune m now ip
  split
  next hforgets =>
    rw [if_pos hforgets] at hoffenses
    refine ⟨h.config_eq, hfollows, hfew, h.banned, h.unbanned, ?_, fun _ => rfl, ?_⟩
    · intro o ho
      cases hoffenses.symm.trans ho
    · intro secs hsecs
      cases hsecs
  next hkeeps =>
    rw [if_neg hkeeps] at hoffenses
    exact ⟨h.config_eq, hfollows, hfew, h.banned, h.unbanned,
      fun o ho => h.offender o (hoffenses.symm.trans ho),
      fun ho => h.clean (hoffenses.symm.trans ho), h.secs⟩

/-- The strikes after one more, as the manager counts them. -/
theorem inWindow_eq (h : Tracks config ip ⟨m, w, now⟩) :
    w.inWindow config now =
      expire (window m.config) now.instant (strikesOf m ip) ++ [now.instant] := by
  rw [Watch.inWindow, recent_append, recent_self, h.config_eq, h.strikes.expire_eq]

theorem inWindow_le (h : Tracks config ip ⟨m, w, now⟩) :
    (w.inWindow config now).length ≤ threshold config := by
  have hle : (expire (window m.config) now.instant (strikesOf m ip)).length ≤
      (strikesOf m ip).length := (List.dropWhile_sublist _).length_le
  have hfew : (strikesOf m ip).length < threshold config := h.few
  rw [inWindow_eq h, List.length_append, List.length_singleton]
  omega

theorem strike_count (h : Tracks config ip ⟨m, w, now⟩) :
    (strike m now ip).1 = UInt32.ofNat (w.inWindow config now).length := by
  rw [inWindow_eq h]
  rfl

/-- The manager's test of the count is the observer's, also for a limit of zero. -/
theorem below_limit_iff (h : Tracks config ip ⟨m, w, now⟩) :
    (strike m now ip).1 < config.maxFailures ↔
      ¬ threshold config ≤ (w.inWindow config now).length := by
  have hpos : 0 < (w.inWindow config now).length := by
    rw [inWindow_eq h, List.length_append, List.length_singleton]
    omega
  have hcount : (UInt32.ofNat (w.inWindow config now).length).toNat =
      (w.inWindow config now).length :=
    UInt32.toNat_ofNat_of_lt' ((inWindow_le h).trans_lt (threshold_lt config))
  rw [strike_count h, UInt32.lt_iff_toNat_lt, hcount, threshold]
  omega

theorem Tracks.strike_passed (h : Tracks config ip ⟨m, w, now⟩)
    (hbelow : (strike m now ip).1 < config.maxFailures) :
    Tracks config ip ⟨(strike m now ip).2,
      { w with strikes := w.strikes ++ [now.instant] }, now⟩ := by
  have hstrikes : strikesOf (strike m now ip).2 ip =
      expire (window config) now.instant (strikesOf m ip) ++ [now.instant] := by
    rw [strikesOf, strike, AList.lookup_insert, h.config_eq]
    rfl
  refine ⟨h.config_eq, ?_, ?_, h.banned, h.unbanned, h.offender, h.clean, h.secs⟩
  · change Follows _ _ (strikesOf (strike m now ip).2 ip) _
    rw [hstrikes]
    exact h.strikes.expired.push
  · change (strikesOf (strike m now ip).2 ip).length < _
    rw [hstrikes, ← h.config_eq, ← inWindow_eq h, h.config_eq]
    exact not_le.mp ((below_limit_iff h).mp hbelow)

theorem nextOffense_eq (h : Tracks config ip ⟨m, w, now⟩) :
    nextOffense m ip = UInt32.ofNat (w.offenses + 1) := by
  rw [nextOffense]
  cases ho : m.offenses.lookup ip with
  | none =>
      rw [h.clean ho]
      rfl
  | some o =>
      obtain ⟨hcount, -⟩ := h.offender o ho
      change o.count + 1 = _
      rw [← hcount, UInt32.ofNat_add, UInt32.ofNat_toNat]
      rfl

/-- A punishment that can be written down is the ban of the next offense. -/
theorem punish_eq (hconfig : m.config = config) (reason : List Char) (count : UInt32) {k : Nat}
    (hnext : nextOffense m ip = UInt32.ofNat (k + 1)) (hk : k + 1 < 2 ^ 32)
    (hend : now.system / second + escalated config (k + 1) < 2 ^ 63) :
    punish m now ip reason count =
      let e : BanEntry := ⟨ip, reason, now.system, now.system + escalated config (k + 1) * second,
        count, false, UInt32.ofNat (k + 1)⟩
      (.banned e,
        insertBan (insertOffense (removeFailures m ip) now ip (UInt32.ofNat (k + 1))) ip e) := by
  have hearned : earned config now ip reason count (UInt32.ofNat (k + 1)) =
      some ⟨ip, reason, now.system, now.system + escalated config (k + 1) * second, count, false,
        UInt32.ofNat (k + 1)⟩ := by
    rw [earned, banSecs_eq config hk, addSecs, if_pos hend]
    rfl
  have hconfig' : (insertOffense (removeFailures m ip) now ip (UInt32.ofNat (k + 1))).config =
      config := hconfig
  rw [punish, hnext]
  simp only [hconfig', hearned]

/-- A ban starts the observer's account anew, whatever the manager held before. -/
theorem tracks_of_punished (hconfig : m.config = config) (e : BanEntry) {k secs : Nat}
    (hk : k + 1 < 2 ^ 32) (hsecs : secs = escalated config (k + 1))
    (he : e.expiresAt = now.system + secs * second) :
    Tracks config ip
      ⟨insertBan (insertOffense (removeFailures m ip) now ip (UInt32.ofNat (k + 1))) ip e,
        ⟨[], now.system + secs * second, some now.instant, k + 1, some secs⟩, now⟩ := by
  have hnone : strikesOf (removeFailures m ip) ip = [] := by
    rw [strikesOf, removeFailures, AList.lookup_erase]
    rfl
  have hbans : (m.bans.insert ip e).lookup ip = some e := AList.lookup_insert _
  have hoffs : (m.offenses.insert ip ⟨UInt32.ofNat (k + 1), now.instant⟩).lookup ip =
      some ⟨UInt32.ofNat (k + 1), now.instant⟩ := AList.lookup_insert _
  constructor
  case config_eq => exact hconfig
  case strikes =>
    change Follows _ _ (strikesOf (removeFailures m ip) ip) _
    rw [hnone]
    exact .nil
  case few =>
    change (strikesOf (removeFailures m ip) ip).length < _
    rw [hnone]
    exact threshold_pos config
  case banned =>
    intro e' he'
    cases hbans.symm.trans he'
    exact he
  case unbanned =>
    intro hlost
    cases hbans.symm.trans hlost
  case offender =>
    intro o ho
    cases hoffs.symm.trans ho
    exact ⟨UInt32.toNat_ofNat_of_lt' hk, rfl⟩
  case clean =>
    intro hlost
    cases hoffs.symm.trans hlost
  case secs =>
    intro secs' hsecs'
    cases hsecs'
    exact hsecs

theorem Watch.due_of_banned (config : BanConfig) (hb : now.system < w.bannedUntil) :
    w.due config now = none ∧ w.failure config now = w :=
  ⟨if_pos hb, if_pos hb⟩

theorem Watch.due_of_few (hb : ¬ now.system < w.bannedUntil)
    (hfew : ¬ threshold config ≤ (w.inWindow config now).length) :
    w.due config now = none ∧
      w.failure config now = { w with strikes := w.strikes ++ [now.instant] } := by
  have hdue : w.due config now = none := by rw [Watch.due, if_neg hb, if_neg hfew]
  refine ⟨hdue, ?_⟩
  rw [Watch.failure, if_neg hb, hdue]

theorem Watch.due_of_many (hb : ¬ now.system < w.bannedUntil)
    (hmany : threshold config ≤ (w.inWindow config now).length) :
    w.due config now = some (escalated config (w.offenses + 1)) ∧
      w.failure config now =
        ⟨[], now.system + escalated config (w.offenses + 1) * second, some now.instant,
          w.offenses + 1, some (escalated config (w.offenses + 1))⟩ := by
  have hdue : w.due config now = some (escalated config (w.offenses + 1)) := by
    rw [Watch.due, if_neg hb, if_pos hmany]
  refine ⟨hdue, ?_⟩
  rw [Watch.failure, if_neg hb, hdue]

theorem recordFailure_own (hon : config.enabled = true) (hlist : isWhitelisted N config ip = false)
    (h : Tracks config ip ⟨m, w, now⟩) (reason : List Char)
    (hreg : ∀ secs ∈ w.due config now,
      w.offenses + 1 < 2 ^ 32 ∧ now.system / second + secs < 2 ^ 63) :
    (recordFailure N m now ip reason).1 = answer config w now ip reason ∧
      Tracks config ip ⟨(recordFailure N m now ip reason).2, w.failure config now, now⟩ := by
  have hconfig : m.config = config := h.config_eq
  have hlooked := h.isBanned ip
  simp only [recordFailure, hconfig, hon, hlist, Bool.not_true, Bool.or_self, Bool.false_eq_true,
    if_false, isBanned_of_tracks hon h, decide_eq_true_eq]
  by_cases hb : now.system < w.bannedUntil
  · obtain ⟨hdue, hfail⟩ := Watch.due_of_banned config hb
    rw [if_pos hb, hfail, answer, hdue]
    exact ⟨rfl, hlooked⟩
  · rw [if_neg hb]
    by_cases hmany : threshold config ≤ (w.inWindow config now).length
    · obtain ⟨hdue, hfail⟩ := Watch.due_of_many hb hmany
      obtain ⟨hk, hend⟩ := hreg _ hdue
      have hlimit := mt (below_limit_iff hlooked).mp (not_not.mpr hmany)
      have hconfig' : (strike (isBanned m now ip).2 now ip).2.config = config := hlooked.config_eq
      have hcount : (strike (isBanned m now ip).2 now ip).1 = UInt32.ofNat (threshold config) := by
        rw [strike_count hlooked, le_antisymm (inWindow_le hlooked) hmany]
      have hnext : nextOffense (isBanned m now ip).2 ip = UInt32.ofNat (w.offenses + 1) :=
        nextOffense_eq hlooked
      rw [if_neg hlimit, punish_eq hconfig' reason _ (k := w.offenses) hnext hk hend, hcount, hfail,
        answer, hdue]
      exact ⟨rfl, tracks_of_punished hconfig' _ hk rfl rfl⟩
    · obtain ⟨hdue, hfail⟩ := Watch.due_of_few hb hmany
      have hlimit := (below_limit_iff hlooked).mpr hmany
      rw [if_pos hlimit, hfail, answer, hdue]
      exact ⟨rfl, hlooked.strike_passed hlimit⟩

/-- Whoever is forgotten has had no ban for long enough. -/
theorem quiet_of_forgets (h : Tracks config ip ⟨m, w, now⟩) (hf : forgets m now ip = true)
    (hstrikes : ∀ t ∈ w.strikes, forgetAfter config < now.instant - t) : w.Quiet config now := by
  rw [forgets] at hf
  obtain ⟨o, ho, hcold⟩ := (Option.any_eq_true _ _).mp hf
  rw [isCold, Bool.and_eq_true, decide_eq_true_eq, Option.isNone_iff_eq_none, h.config_eq] at hcold
  refine ⟨h.unbanned hcold.2, ?_, hstrikes⟩
  intro t ht
  cases (h.offender o ho).2.symm.trans ht
  exact hcold.1

theorem due_ge_last (h : Tracks config ip ⟨m, w, now⟩) :
    ∀ secs ∈ w.due config now, ∀ last ∈ w.lastSecs, last ≤ secs := by
  intro secs hdue last hlast
  rw [h.secs last hlast]
  rw [Watch.due] at hdue
  split at hdue
  · cases hdue
  · split at hdue
    · cases hdue
      exact escalated_mono config w.offenses
    · cases hdue

theorem step_tracks (hon : config.enabled = true) (hlist : isWhitelisted N config ip = false)
    (s : Observed) (e : Clock × Call) (h : Tracks config ip s)
    (ha : InOrder s e ∧ Regular ip s e) : Tracks config ip (step N ip s e) := by
  obtain ⟨m, w, clock⟩ := s
  obtain ⟨now, call⟩ := e
  obtain ⟨⟨hinstant, hsystem⟩, hreg⟩ := ha
  have hconfig : m.config = config := h.config_eq
  have hnow : Tracks config ip ⟨m, w, now⟩ := h.later hinstant hsystem
  cases call with
  | isBanned ip' => exact hnow.isBanned ip'
  | cleanupExpired => exact hnow.cleanupExpired
  | pruneStaleWindows => exact hnow.pruneStaleWindows
  | recordFailure ip' reason =>
      by_cases hip : ip' = ip
      · subst hip
        change Tracks config ip' ⟨(recordFailure N m now ip' reason).2,
          if ip' = ip' then w.failure m.config now else w, now⟩
        rw [if_pos rfl, hconfig]
        exact (recordFailure_own hon hlist hnow reason (hconfig ▸ hreg rfl)).2
      · change Tracks config ip ⟨(recordFailure N m now ip' reason).2,
          if ip' = ip then w.failure m.config now else w, now⟩
        rw [if_neg hip]
        exact hnow.recordFailure_other (Ne.symm hip) reason

theorem tracks_decides (hon : config.enabled = true) (hlist : isWhitelisted N config ip = false)
    (s : Observed) (e : Clock × Call) (h : Tracks config ip s)
    (ha : InOrder s e ∧ Regular ip s e) : Decides N ip s e := by
  obtain ⟨m, w, clock⟩ := s
  obtain ⟨now, call⟩ := e
  obtain ⟨⟨hinstant, hsystem⟩, hreg⟩ := ha
  have hconfig : m.config = config := h.config_eq
  have hnow : Tracks config ip ⟨m, w, now⟩ := h.later hinstant hsystem
  cases call with
  | cleanupExpired => trivial
  | isBanned ip' => exact fun _ => isBanned_of_tracks hon hnow
  | pruneStaleWindows =>
      intro hf
      change w.Quiet m.config now
      rw [hconfig]
      exact quiet_of_forgets hnow hf (hconfig ▸ hreg hf)
  | recordFailure ip' reason =>
      intro hip
      have hdue := due_ge_last hnow
      have hown := (recordFailure_own hon hlist hnow reason (hconfig ▸ hreg hip)).1
      rw [← hconfig] at hdue hown
      exact ⟨hown, hdue⟩

end Steps

theorem start_tracks (config : BanConfig) (ip : IpAddr) (clock : Clock) :
    Tracks config ip ⟨.new config, .start, clock⟩ where
  config_eq := rfl
  strikes := .nil
  few := threshold_pos config
  banned _ he := by cases he
  unbanned _ := Nat.zero_le _
  offender _ ho := by cases ho
  clean _ := rfl
  secs _ hsecs := by cases hsecs

/-- In a run without the exceptional steps every call decides what the history
of the address says. -/
theorem bans_follow_history {N : Networks} {config : BanConfig} {ip : IpAddr}
    (hon : config.enabled = true) (hlist : isWhitelisted N config ip = false) (clock : Clock)
    (calls : List (Clock × Call))
    (h : Throughout (step N ip) (fun s e => InOrder s e ∧ Regular ip s e)
      ⟨.new config, .start, clock⟩ calls) :
    Throughout (step N ip) (Decides N ip) ⟨.new config, .start, clock⟩ calls :=
  throughout_of_invariant (step_tracks hon hlist) (tracks_decides hon hlist)
    (start_tracks config ip clock) h

/-- Two strikes within a minute are a ban of ten seconds, then of twenty. -/
def strict : BanConfig := ⟨true, 2, 60, 10, 2, 20, []⟩

def offender : IpAddr := NetAddr.ip (ofOctets 198 51 100 1 5060)

def noNetworks : Networks := fun _ _ => none

/-- Both clocks started at once and show so many seconds. -/
def atSecond (n : Nat) : Clock := ⟨n * second, n * second⟩

/-- A ban, and a second one after the first has run out. -/
def twoOffenses : List (Clock × Call) :=
  [(atSecond 0, .recordFailure offender []), (atSecond 5, .recordFailure offender []),
    (atSecond 6, .isBanned offender), (atSecond 16, .cleanupExpired),
    (atSecond 20, .recordFailure offender []), (atSecond 25, .pruneStaleWindows),
    (atSecond 30, .recordFailure offender [])]

theorem bans_follow_history_twoOffenses :
    Throughout (step noNetworks offender) (Decides noNetworks offender)
      ⟨.new strict, .start, atSecond 0⟩ twoOffenses :=
  bans_follow_history rfl (by decide) (atSecond 0) twoOffenses (by decide)

/-- The address strikes again fifty seconds after its ban and is forgotten eleven
seconds later. -/
def forgottenStriker : List (Clock × Call) :=
  [(atSecond 0, .recordFailure offender []), (atSecond 0, .recordFailure offender []),
    (atSecond 11, .cleanupExpired), (atSecond 50, .recordFailure offender []),
    (atSecond 61, .pruneStaleWindows)]

theorem bans_forget_history_of_striker :
    ¬ Throughout (step noNetworks offender) (Decides noNetworks offender)
      ⟨.new strict, .start, atSecond 0⟩ forgottenStriker := by
  decide

end NixiSbc.BanHistory

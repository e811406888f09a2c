import NixiSbc.ByteWords
import NixiSbc.KeyedTable
import NixiSbc.NetAddr
import NixiSbc.StateRuns

namespace NixiSbc.DosProtection

open ByteWords KeyedTable NetAddr StateRuns

/-- Instants are counted in nanoseconds. -/
def second : Nat := 1000000000

def maxTrackedIps : Nat := 100000

structure RateLimitConfig where
  requestsPerSecond : UInt32
  burstSize : UInt32
  blacklistDurationSecs : UInt64
  violationsBeforeBlacklist : UInt32
  cleanupAfterSecs : UInt64

/-- The arithmetic of a token bucket: a full one, one refilled after some time
at a rate up to a size, and one that has given a token, if it had one. -/
structure Bucket (τ : Type) where
  full : UInt32 → τ
  refill : τ → Nat → UInt32 → UInt32 → τ
  consume : τ → Option τ

structure IpState (τ : Type) where
  tokens : τ
  lastRefill : Nat
  violations : UInt32
  blacklistedUntil : Option Nat
  lastSeen : Nat

inductive RateLimitResult
  | allowed
  | rateLimited (violations : UInt32)
  | blacklisted (remainingSecs : Nat)
  | whitelisted
  deriving DecidableEq

structure DosProtector (τ : Type) where
  config : RateLimitConfig
  ipStates : Table IpAddr (IpState τ)
  whitelist : List IpAddr
  allowedCount : UInt64
  blockedCount : UInt64
  blacklistedCount : UInt64

def DosProtector.new (τ : Type) (config : RateLimitConfig) (whitelist : List IpAddr) :
    DosProtector τ :=
  ⟨config, ∅, whitelist, 0, 0, 0⟩

/-- An instant so many seconds later, unless that overflows its signed seconds. -/
def addSecs (now secs : Nat) : Option Nat :=
  if now / second + secs < 2 ^ 63 then some (now + secs * second) else none

def cleanupAfter (config : RateLimitConfig) : Nat := config.cleanupAfterSecs.toNat * second

section

variable {τ : Type} (B : Bucket τ)

def IpState.new (burstSize : UInt32) (now : Nat) : IpState τ :=
  ⟨B.full burstSize, now, 0, none, now⟩

def IpState.refill (st : IpState τ) (config : RateLimitConfig) (now : Nat) : IpState τ :=
  { st with
    tokens := B.refill st.tokens (now - st.lastRefill) config.requestsPerSecond config.burstSize
    lastRefill := now
    lastSeen := now }

/-- A blacklisting that has run out is forgotten, with the violations. -/
def IpState.isBlacklisted (st : IpState τ) (now : Nat) : Bool × IpState τ :=
  match st.blacklistedUntil with
  | some deadline =>
      if now < deadline then (true, st)
      else (false, { st with blacklistedUntil := none, violations := 0 })
  | none => (false, st)

def keepsIdle (now maxAge : Nat) (st : IpState τ) : Bool :=
  st.blacklistedUntil.isSome || decide (now - st.lastSeen < maxAge)

def evictIdle (now maxAge : Nat) (states : Table IpAddr (IpState τ)) : Table IpAddr (IpState τ) :=
  retain (keepsIdle now maxAge) states

/-- Three passes, each only if the map is still full. -/
def enforceCap (config : RateLimitConfig) (now : Nat) (states : Table IpAddr (IpState τ)) :
    Table IpAddr (IpState τ) :=
  if size states < maxTrackedIps then states
  else
    let states := evictIdle now (cleanupAfter config / 4) states
    let states := if maxTrackedIps ≤ size states then evictIdle now (10 * second) states else states
    if maxTrackedIps ≤ size states then retain (·.blacklistedUntil.isSome) states else states

/-- The verdict on a request from an address in this state, with the state after
it; there is no verdict when the end of a blacklisting overflows and the code
panics. -/
def judge (config : RateLimitConfig) (now : Nat) (st : IpState τ) :
    Option RateLimitResult × IpState τ :=
  let looked := (st.refill B config now).isBlacklisted now
  if looked.1 then
    (some (.blacklisted (((looked.2.blacklistedUntil.map (· - now)).getD 0) / second)), looked.2)
  else
    match B.consume looked.2.tokens with
    | some tokens => (some .allowed, { looked.2 with tokens })
    | none =>
        let st := { looked.2 with violations := looked.2.violations + 1 }
        if config.violationsBeforeBlacklist ≤ st.violations then
          match addSecs now config.blacklistDurationSecs.toNat with
          | some deadline =>
              (some (.rateLimited st.violations), { st with blacklistedUntil := some deadline })
          | none => (none, st)
        else (some (.rateLimited st.violations), st)

def DosProtector.counted (d : DosProtector τ) : Option RateLimitResult → DosProtector τ
  | some .allowed => { d with allowedCount := d.allowedCount + 1 }
  | some .whitelisted => { d with allowedCount := d.allowedCount + 1 }
  | some (.rateLimited _) => { d with blockedCount := d.blockedCount + 1 }
  | some (.blacklisted _) => { d with blacklistedCount := d.blacklistedCount + 1 }
  | none => d

/-- The map after room has been made for an address that is not tracked. -/
def makeRoom (d : DosProtector τ) (now : Nat) (addr : IpAddr) : Table IpAddr (IpState τ) :=
  if (d.ipStates.lookup addr).isSome then d.ipStates else enforceCap d.config now d.ipStates

def check (d : DosProtector τ) (now : Nat) (addr : IpAddr) : Option RateLimitResult × DosProtector τ :=
  if addr ∈ d.whitelist then (some .whitelisted, d.counted (some .whitelisted))
  else
    let states := makeRoom d now addr
    let st := (states.lookup addr).getD (.new B d.config.burstSize now)
    let r := judge B d.config now st
    (r.1, { d with ipStates := states.insert addr r.2 }.counted r.1)

/-- The entry is made before the end of the blacklisting can overflow. -/
def blacklistIp (d : DosProtector τ) (now : Nat) (addr : IpAddr) (durationSecs : UInt64) :
    DosProtector τ :=
  let st := (d.ipStates.lookup addr).getD (.new B d.config.burstSize now)
  let st :=
    match addSecs now durationSecs.toNat with
    | some deadline => { st with blacklistedUntil := some deadline }
    | none => st
  { d with ipStates := d.ipStates.insert addr st }

def unblacklistIp (d : DosProtector τ) (addr : IpAddr) : DosProtector τ :=
  { d with
    ipStates := modify addr (fun st => { st with blacklistedUntil := none, violations := 0 }) d.ipStates }

def cleanupExpired (d : DosProtector τ) (now : Nat) : Nat × DosProtector τ :=
  let states := evictIdle now (cleanupAfter d.config) d.ipStates
  (size d.ipStates - size states, { d with ipStates := states })

end

inductive Call
  | check (addr : IpAddr)
  | blacklistIp (addr : IpAddr) (durationSecs : UInt64)
  | unblacklistIp (addr : IpAddr)
  | cleanupExpired
  deriving DecidableEq

section

variable {τ : Type} (B : Bucket τ)

def step (d : DosProtector τ) : Nat × Call → DosProtector τ
  | (now, .check addr) => (check B d now addr).2
  | (now, .blacklistIp addr durationSecs) => blacklistIp B d now addr durationSecs
  | (_, .unblacklistIp addr) => unblacklistIp d addr
  | (now, .cleanupExpired) => (cleanupExpired d now).2

end

/-- The call names the address to change its blacklisting. -/
def Call.isAbout (ip : IpAddr) : Call → Bool
  | .blacklistIp addr _ => decide (addr = ip)
  | .unblacklistIp addr => decide (addr = ip)
  | _ => false

section

variable {τ : Type} (B : Bucket τ)

/-- What a call promises: the map stays within its bound, an address that is
blacklisted stays tracked and blacklisted until the same time unless the call
says otherwise, and a cleanup takes the entries that are idle and not blacklisted. -/
structure Meets (d : DosProtector τ) (e : Nat × Call) : Prop where
  bounded : size (step B d e).ipStates ≤ maxTrackedIps
  kept : ∀ ip st deadline, d.ipStates.lookup ip = some st → st.blacklistedUntil = some deadline →
    e.1 < deadline → ∃ st', (step B d e).ipStates.lookup ip = some st' ∧
      (st'.blacklistedUntil = some deadline ∨ e.2.isAbout ip = true)
  cleaned : e.2 = .cleanupExpired → ∀ ip st, d.ipStates.lookup ip = some st →
    (∀ deadline ∈ st.blacklistedUntil, deadline ≤ e.1) → cleanupAfter d.config ≤ e.1 - st.lastSeen →
    (step B d e).ipStates.lookup ip = none

/-- A new address finds room or an entry to evict, a blacklisting of a new
address finds room, and a cleanup finds no blacklisting that has run out on an
idle entry. -/
def Fits (d : DosProtector τ) : Nat × Call → Prop
  | (_, .check addr) => addr ∈ d.whitelist ∨ (d.ipStates.lookup addr).isSome = true ∨
      size d.ipStates < maxTrackedIps ∨
      ∃ ip st, d.ipStates.lookup ip = some st ∧ st.blacklistedUntil = none
  | (_, .blacklistIp addr _) => (d.ipStates.lookup addr).isSome = true ∨
      size d.ipStates < maxTrackedIps
  | (_, .unblacklistIp _) => True
  | (now, .cleanupExpired) => ∀ ip st deadline, d.ipStates.lookup ip = some st →
      st.blacklistedUntil = some deadline → deadline ≤ now → now - st.lastSeen < cleanupAfter d.config

end

section Steps

variable {τ : Type} {B : Bucket τ} {d : DosProtector τ} {now : Nat} {config : RateLimitConfig}
  {states : Table IpAddr (IpState τ)} {ip : IpAddr} {st : IpState τ}

/-- One pass of the eviction. -/
def evictIfFull (p : IpState τ → Bool) (states : Table IpAddr (IpState τ)) :
    Table IpAddr (IpState τ) :=
  if maxTrackedIps ≤ size states then retain p states else states

theorem evictIfFull_of_lt (p : IpState τ → Bool) (h : size states < maxTrackedIps) :
    evictIfFull p states = states :=
  if_neg (not_le.mpr h)

theorem enforceCap_eq (config : RateLimitConfig) (now : Nat) (states : Table IpAddr (IpState τ)) :
    enforceCap config now states =
      evictIfFull (·.blacklistedUntil.isSome) (evictIfFull (keepsIdle now (10 * second))
        (evictIfFull (keepsIdle now (cleanupAfter config / 4)) states)) := by
  rw [enforceCap]
  split
  next hroom => rw [evictIfFull_of_lt _ hroom, evictIfFull_of_lt _ hroom, evictIfFull_of_lt _ hroom]
  next hfull =>
    have hfirst : evictIfFull (keepsIdle now (cleanupAfter config / 4)) states =
        evictIdle now (cleanupAfter config / 4) states := if_pos (not_lt.mp hfull)
    rw [hfirst]
    rfl

theorem evictIfFull_kept {p : IpState τ → Bool} (h : states.lookup ip = some st) (hp : p st = true) :
    (evictIfFull p states).lookup ip = some st := by
  rw [evictIfFull]
  split
  · rw [lookup_retain, h, Option.filter_some, if_pos hp]
  · exact h

theorem evictIfFull_untracked (p : IpState τ → Bool) (h : states.lookup ip = none) :
    (evictIfFull p states).lookup ip = none := by
  rw [evictIfFull]
  split
  · rw [lookup_retain, h]
    rfl
  · exact h

theorem keepsIdle_of_blacklisted (maxAge : Nat) (hb : st.blacklistedUntil.isSome = true) :
    keepsIdle now maxAge st = true := by
  rw [keepsIdle, hb, Bool.true_or]

theorem count_evictIfFull {p q : IpState τ → Bool} (h : ∀ st, p st = true → q st = true)
    (states : Table IpAddr (IpState τ)) : count p (evictIfFull q states) = count p states := by
  rw [evictIfFull]
  split
  · exact count_retain h states
  · rfl

/-- No pass takes a blacklisted address. -/
theorem count_enforceCap (config : RateLimitConfig) (now : Nat) (states : Table IpAddr (IpState τ)) :
    count (fun st => st.blacklistedUntil.isSome) (enforceCap config now states) =
      count (fun st => st.blacklistedUntil.isSome) states := by
  rw [enforceCap_eq, count_evictIfFull (fun _ hb => hb),
    count_evictIfFull (fun _ hb => keepsIdle_of_blacklisted _ hb),
    count_evictIfFull (fun _ hb => keepsIdle_of_blacklisted _ hb)]

/-- A blacklisted address survives all three passes. -/
theorem enforceCap_kept (h : states.lookup ip = some st) (hb : st.blacklistedUntil.isSome = true) :
    (enforceCap config now states).lookup ip = some st := by
  rw [enforceCap_eq]
  apply evictIfFull_kept _ hb
  apply evictIfFull_kept _ (keepsIdle_of_blacklisted _ hb)
  exact evictIfFull_kept h (keepsIdle_of_blacklisted _ hb)

theorem enforceCap_untracked (h : states.lookup ip = none) :
    (enforceCap config now states).lookup ip = none := by
  rw [enforceCap_eq]
  apply evictIfFull_untracked
  apply evictIfFull_untracked
  exact evictIfFull_untracked _ h

/-- A full map with an entry that is not blacklisted has room afterwards. -/
theorem enforceCap_lt (hfull : size states ≤ maxTrackedIps) (h : states.lookup ip = some st)
    (hb : st.blacklistedUntil = none) : size (enforceCap config now states) < maxTrackedIps := by
  have hblack : count (fun st : IpState τ => st.blacklistedUntil.isSome) states < maxTrackedIps := by
    apply lt_of_lt_of_le _ hfull
    apply lt_of_le_of_ne (count_le_size _ _)
    intro hall
    have hsome := (count_eq_size_iff _ _).mp hall ip st h
    rw [hb] at hsome
    cases hsome
  have hkeep := count_enforceCap config now states
  rw [enforceCap_eq, evictIfFull] at *
  split
  next hfull' =>
    rw [if_pos hfull', count_retain fun _ h => h] at hkeep
    rw [size_retain, hkeep]
    exact hblack
  next hroom => exact not_le.mp hroom

/-- A map of blacklisted addresses only stays as large as it is. -/
theorem enforceCap_full (config : RateLimitConfig) (now : Nat)
    (h : ∀ ip st, states.lookup ip = some st → st.blacklistedUntil ≠ none) :
    size states ≤ size (enforceCap config now states) := by
  have hall : count (fun st : IpState τ => st.blacklistedUntil.isSome) states = size states := by
    apply (count_eq_size_iff _ _).mpr
    intro ip st hst
    exact Option.isSome_iff_ne_none.mpr (h ip st hst)
  rw [← hall, ← count_enforceCap config now states]
  exact count_le_size _ _

theorem judge_kept {deadline : Nat} (hb : st.blacklistedUntil = some deadline) (h : now < deadline) :
    (judge B config now st).2.blacklistedUntil = some deadline := by
  have hlooked : (st.refill B config now).isBlacklisted now = (true, st.refill B config now) := by
    rw [IpState.isBlacklisted]
    simp only [IpState.refill, hb, h, if_true]
  rw [judge, hlooked]
  exact hb

theorem counted_ipStates (d : DosProtector τ) (r : Option RateLimitResult) :
    (d.counted r).ipStates = d.ipStates := by
  cases r with
  | none => rfl
  | some r =>
      cases r with
      | allowed => rfl
      | rateLimited => rfl
      | blacklisted => rfl
      | whitelisted => rfl

theorem check_ipStates (d : DosProtector τ) (now : Nat) (addr : IpAddr) :
    (check B d now addr).2.ipStates =
      if addr ∈ d.whitelist then d.ipStates
      else (makeRoom d now addr).insert addr
        (judge B d.config now
          (((makeRoom d now addr).lookup addr).getD (.new B d.config.burstSize now))).2 := by
  rw [check]
  split
  · rfl
  · exact counted_ipStates _ _

theorem makeRoom_kept (h : d.ipStates.lookup ip = some st) (hb : st.blacklistedUntil.isSome = true)
    (now : Nat) (addr : IpAddr) : (makeRoom d now addr).lookup ip = some st := by
  rw [makeRoom]
  split
  · exact h
  · exact enforceCap_kept h hb

theorem check_kept {deadline : Nat} (h : d.ipStates.lookup ip = some st)
    (hb : st.blacklistedUntil = some deadline) (hlive : now < deadline) (addr : IpAddr) :
    ∃ st', (check B d now addr).2.ipStates.lookup ip = some st' ∧
      st'.blacklistedUntil = some deadline := by
  rw [check_ipStates]
  split
  · exact ⟨st, h, hb⟩
  · have hroom := makeRoom_kept h (by rw [hb]; rfl) now addr
    by_cases hip : ip = addr
    · subst hip
      refine ⟨_, AList.lookup_insert _, ?_⟩
      rw [hroom]
      exact judge_kept hb hlive
    · rw [AList.lookup_insert_ne hip]
      exact ⟨st, hroom, hb⟩

theorem blacklistIp_kept (h : d.ipStates.lookup ip = some st) (addr : IpAddr) (durationSecs : UInt64) :
    ∃ st', (blacklistIp B d now addr durationSecs).ipStates.lookup ip = some st' ∧
      (st'.blacklistedUntil = st.blacklistedUntil ∨ addr = ip) := by
  rw [blacklistIp]
  by_cases hip : ip = addr
  · subst hip
    exact ⟨_, AList.lookup_insert _, .inr rfl⟩
  · exact ⟨st, (AList.lookup_insert_ne hip).trans h, .inl rfl⟩

theorem unblacklistIp_kept (h : d.ipStates.lookup ip = some st) (addr : IpAddr) :
    ∃ st', (unblacklistIp d addr).ipStates.lookup ip = some st' ∧
      (st'.blacklistedUntil = st.blacklistedUntil ∨ addr = ip) := by
  rw [unblacklistIp]
  by_cases hip : ip = addr
  · subst hip
    exact ⟨_, (lookup_modify_self ..).trans (by rw [h]; rfl), .inr rfl⟩
  · exact ⟨st, (lookup_modify_ne hip ..).trans h, .inl rfl⟩

theorem cleanupExpired_lookup (d : DosProtector τ) (now : Nat) (ip : IpAddr) :
    (cleanupExpired d now).2.ipStates.lookup ip =
      (d.ipStates.lookup ip).filter (keepsIdle now (cleanupAfter d.config)) :=
  lookup_retain _ _ _

/-- An address that is blacklisted stays so, whatever is called. -/
theorem step_kept {e : Nat × Call} {deadline : Nat} (h : d.ipStates.lookup ip = some st)
    (hb : st.blacklistedUntil = some deadline) (hlive : e.1 < deadline) :
    ∃ st', (step B d e).ipStates.lookup ip = some st' ∧
      (st'.blacklistedUntil = some deadline ∨ e.2.isAbout ip = true) := by
  obtain ⟨now, call⟩ := e
  cases call with
  | check addr =>
      obtain ⟨st', hst', hb'⟩ := check_kept h hb hlive addr
      exact ⟨st', hst', .inl hb'⟩
  | blacklistIp addr durationSecs =>
      obtain ⟨st', hst', hor⟩ := blacklistIp_kept h addr durationSecs
      exact ⟨st', hst', hor.imp (fun heq => heq.trans hb) decide_eq_true⟩
  | unblacklistIp addr =>
      obtain ⟨st', hst', hor⟩ := unblacklistIp_kept h addr
      exact ⟨st', hst', hor.imp (fun heq => heq.trans hb) decide_eq_true⟩
  | cleanupExpired =>
      refine ⟨st, ?_, .inl hb⟩
      rw [step, cleanupExpired_lookup, h, Option.filter_some,
        if_pos (keepsIdle_of_blacklisted _ (by rw [hb]; rfl))]

/-- A cleanup takes every idle entry that it should exactly when no
blacklisting has run out on an idle entry. -/
theorem cleaned_iff (d : DosProtector τ) (now : Nat) :
    (∀ ip st, d.ipStates.lookup ip = some st → (∀ deadline ∈ st.blacklistedUntil, deadline ≤ now) →
        cleanupAfter d.config ≤ now - st.lastSeen →
        (cleanupExpired d now).2.ipStates.lookup ip = none) ↔
      Fits d (now, .cleanupExpired) := by
  constructor
  · intro h ip st deadline hst hb hout
    by_contra hidle
    have hgone := h ip st hst (fun t ht => by cases hb.symm.trans ht; exact hout) (not_lt.mp hidle)
    rw [cleanupExpired_lookup, hst, Option.filter_some,
      if_pos (keepsIdle_of_blacklisted _ (by rw [hb]; rfl))] at hgone
    cases hgone
  · intro h ip st hst hout hidle
    have hnone : st.blacklistedUntil = none := by
      cases hb : st.blacklistedUntil with
      | none => rfl
      | some deadline => exact absurd (h ip st deadline hst hb (hout deadline hb)) (not_lt.mpr hidle)
    rw [cleanupExpired_lookup, hst, Option.filter_some, if_neg]
    rw [keepsIdle, hnone]
    simpa using hidle

theorem size_cleanupExpired_le (d : DosProtector τ) (now : Nat) :
    size (cleanupExpired d now).2.ipStates ≤ size d.ipStates :=
  (size_retain _ _).trans_le (count_le_size _ _)

theorem size_check_le_iff (hd : size d.ipStates ≤ maxTrackedIps) (addr : IpAddr) :
    size (check B d now addr).2.ipStates ≤ maxTrackedIps ↔ Fits d (now, .check addr) := by
  rw [check_ipStates]
  split
  next hwhite => exact ⟨fun _ => .inl hwhite, fun _ => hd⟩
  next hblack =>
    cases htracked : d.ipStates.lookup addr with
    | some st =>
        have hroom : makeRoom d now addr = d.ipStates := by rw [makeRoom, htracked]; rfl
        rw [hroom, size_insert_present _ (by rw [htracked]; rfl)]
        exact ⟨fun _ => .inr (.inl (by rw [htracked]; rfl)), fun _ => hd⟩
    | none =>
        have hroom : makeRoom d now addr = enforceCap d.config now d.ipStates := by
          rw [makeRoom, htracked]; rfl
        rw [hroom, size_insert_new _ (enforceCap_untracked htracked)]
        constructor
        · intro hle
          by_contra hfits
          simp only [Fits, htracked, hblack, not_or, not_exists, not_and, not_lt] at hfits
          have hfull := enforceCap_full d.config now hfits.2.2.2
          omega
        · rintro (hwhite | hsome | hlt | ⟨ip, st, hst, hb⟩)
          · exact absurd hwhite hblack
          · rw [htracked] at hsome
            cases hsome
          · rw [enforceCap, if_pos hlt]
            exact hlt
          · exact enforceCap_lt hd hst hb

theorem size_blacklistIp_le_iff (hd : size d.ipStates ≤ maxTrackedIps) (addr : IpAddr)
    (durationSecs : UInt64) :
    size (blacklistIp B d now addr durationSecs).ipStates ≤ maxTrackedIps ↔
      Fits d (now, .blacklistIp addr durationSecs) := by
  cases htracked : d.ipStates.lookup addr with
  | some st =>
      have hsome : (d.ipStates.lookup addr).isSome = true := by rw [htracked]; rfl
      rw [blacklistIp, size_insert_present _ hsome]
      exact ⟨fun _ => .inl hsome, fun _ => hd⟩
  | none =>
      rw [blacklistIp, size_insert_new _ htracked]
      constructor
      · exact fun hle => .inr hle
      · rintro (hsome | hlt)
        · rw [htracked] at hsome
          cases hsome
        · exact hlt

theorem size_unblacklistIp (d : DosProtector τ) (addr : IpAddr) :
    size (unblacklistIp d addr).ipStates = size d.ipStates :=
  size_modify _ _ _

theorem meets_iff_fits (d : DosProtector τ) (e : Nat × Call) (hd : size d.ipStates ≤ maxTrackedIps) :
    Meets B d e ↔ Fits d e := by
  obtain ⟨now, call⟩ := e
  have hnot {call' : Call} (hne : call' ≠ .cleanupExpired) {p : Prop} : call' = .cleanupExpired → p :=
    fun h => absurd h hne
  cases call with
  | check addr =>
      refine ⟨fun h => (size_check_le_iff hd addr).mp h.bounded, fun h => ?_⟩
      exact ⟨(size_check_le_iff hd addr).mpr h, fun _ _ _ => step_kept, hnot (by simp)⟩
  | blacklistIp addr durationSecs =>
      refine ⟨fun h => (size_blacklistIp_le_iff hd addr durationSecs).mp h.bounded, fun h => ?_⟩
      exact ⟨(size_blacklistIp_le_iff hd addr durationSecs).mpr h, fun _ _ _ => step_kept,
        hnot (by simp)⟩
  | unblacklistIp addr =>
      refine ⟨fun _ => trivial, fun _ => ⟨?_, fun _ _ _ => step_kept, hnot (by simp)⟩⟩
      exact (size_unblacklistIp d addr).trans_le hd
  | cleanupExpired =>
      refine ⟨fun h => (cleaned_iff d now).mp (h.cleaned rfl), fun h => ?_⟩
      exact ⟨(size_cleanupExpired_le d now).trans hd, fun _ _ _ => step_kept,
        fun _ => (cleaned_iff d now).mpr h⟩

theorem throughout_meets_iff (hd : size d.ipStates ≤ maxTrackedIps) (calls : List (Nat × Call)) :
    Throughout (step B) (Meets B) d calls ↔ Throughout (step B) Fits d calls :=
  throughout_iff meets_iff_fits (fun _ _ _ h => h.bounded) hd

end Steps

/-- A protector that starts empty keeps its promises in exactly the runs in
which every call fits. -/
theorem dos_state_bounded_iff_fits {τ : Type} (B : Bucket τ) (config : RateLimitConfig)
    (whitelist : List IpAddr) (calls : List (Nat × Call)) :
    Throughout (step B) (Meets B) (.new τ config whitelist) calls ↔
      Throughout (step B) Fits (.new τ config whitelist) calls :=
  throughout_meets_iff (Nat.zero_le _) calls

/-- Buckets counted in billionths of a token. -/
def exactBucket : Bucket Nat where
  full burst := burst.toNat * second
  refill tokens elapsed rate burst := min (tokens + elapsed * rate.toNat) (burst.toNat * second)
  consume tokens := if second ≤ tokens then some (tokens - second) else none

def config : RateLimitConfig := ⟨50, 100, 300, 10, 600⟩

/-- The address of this number. -/
def source (n : Nat) : IpAddr := .v4 ⟨(beBytes 4 n).toArray, beBytes_length 4 n⟩

theorem source_inj {n k : Nat} (hn : n < 256 ^ 4) (hk : k < 256 ^ 4) (h : source n = source k) :
    n = k := by
  apply beBytes_inj hn hk
  have hvec := IpAddr.v4.inj h
  exact congrArg (fun v : Vector UInt8 4 => v.toArray.toList) hvec

/-- An address is blacklisted for a minute and never heard of again. -/
def forgottenSource : List (Nat × Call) :=
  [(0, .blacklistIp (source 0) 60), (700 * second, .cleanupExpired)]

/-- Every address of a range is blacklisted. -/
def flood (k n : Nat) : List (Nat × Call) := (List.range' k n).map fun i => (0, .blacklistIp (source i) 60)

/-- From a map with the first addresses in it, one more than fit are blacklisted. -/
theorem flood_overflows {τ : Type} (B : Bucket τ) (d : DosProtector τ) (k n : Nat)
    (hbound : k + n < 256 ^ 4) (hsize : size d.ipStates = k) (hmax : k + n = maxTrackedIps + 1)
    (hnew : ∀ i, k ≤ i → i < k + n → d.ipStates.lookup (source i) = none) (hpos : 0 < n) :
    ¬ Throughout (step B) Fits d (flood k n) := by
  induction n generalizing d k with
  | zero => exact absurd hpos (lt_irrefl 0)
  | succ n ih =>
      rintro ⟨hfits, hrest⟩
      rcases Nat.eq_zero_or_pos n with rfl | hpos'
      · rcases hfits with hsome | hlt
        · rw [hnew k le_rfl (by omega)] at hsome
          cases hsome
        · omega
      · refine ih (step B d (0, .blacklistIp (source k) 60)) (k + 1) (by omega) ?_ (by omega) ?_ hpos'
          hrest
        · rw [step, blacklistIp, size_insert_new _ (hnew k le_rfl (by omega)), hsize]
        · intro i hi hlt
          have hne : source i ≠ source k := fun h => by
            have := source_inj (by omega) (by omega) h
            omega
          rw [step, blacklistIp, AList.lookup_insert_ne hne]
          exact hnew i (by omega) (by omega)

/-- Neither the cleanup nor the bound holds up: the idle entry outlives its
blacklisting, and a hundred thousand and one blacklisted addresses are tracked. -/
theorem dos_state_unbounded :
    ¬ Throughout (step exactBucket) (Meets exactBucket) (.new Nat config []) forgottenSource ∧
      ¬ Throughout (step exactBucket) (Meets exactBucket) (.new Nat config [])
        (flood 0 (maxTrackedIps + 1)) := by
  constructor
  · rw [throughout_meets_iff (Nat.zero_le _)]
    rintro ⟨-, hcleanup, -⟩
    have hidle := hcleanup (source 0) _ (60 * second) (AList.lookup_insert _) rfl (by decide)
    revert hidle
    decide
  · rw [throughout_meets_iff (Nat.zero_le _)]
    apply flood_overflows _ _ 0 (maxTrackedIps + 1) (by decide) rfl (Nat.zero_add _)
    · intro i _ _
      rfl
    · exact Nat.succ_pos _

end NixiSbc.DosProtection

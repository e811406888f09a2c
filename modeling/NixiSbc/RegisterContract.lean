import NixiSbc.RegisterOrder

namespace NixiSbc.RegisterContract

open TextFields KeyedTable Eviction Registrar RegisterOrder

/-- The request only takes bindings away, or asks for them. -/
def Withdraws (policy : RegisterPolicy) (req : RegisterRequest) : Prop := ∀ c ∈ req.contacts, granted policy req c = 0

/-- An unexpired binding of an address of record. -/
def Binds (s : InMemoryRegistrar) (now : Nat) (aor : List Char) (r : Registration) : Prop :=
  ∃ key, s.regs.lookup (aor, key) = some r ∧ toSecs now < r.expiresAt

/-- What an answer says of the table after the request. -/
structure Truthful (policy : RegisterPolicy) (req : RegisterRequest) (now : Nat) (s s' : InMemoryRegistrar)
    (bindings registered : List Registration) : Prop where
  current : ∀ r, r ∈ bindings ↔ Binds s' now req.aor r
  bounded : ∀ r ∈ registered, policy.minExpires ≤ r.expires ∧ r.expires ≤ policy.maxExpires
  others : Withdraws policy req → ∀ key, key.1 ≠ req.aor → s'.regs.lookup key = s.regs.lookup key

/-- A refusal changes nothing, and an answer is true. -/
def Contract (policy : RegisterPolicy) (req : RegisterRequest) (now : Nat) (s : InMemoryRegistrar) :
    RegisterResult × InMemoryRegistrar → Prop
  | (.ok bindings registered _ _, s') => Truthful policy req now s s' bindings registered
  | (.intervalTooBrief _, s') | (.badRequest _, s') => s' = s

/-- The wildcard is to take away an unexpired binding of its own dialog that is not older. -/
def Overtaken (req : RegisterRequest) (now : Nat) (s : InMemoryRegistrar) : Prop :=
  req.wildcard = true ∧ req.contacts = [] ∧ req.expiresHeader = some 0 ∧
    ∃ r, Binds s now req.aor r ∧ notNewer req.callId req.cseq r = true

variable {I : Iteration RegKey Registration} {V : Uppering} {policy : RegisterPolicy} {req : RegisterRequest} {now : Nat}
  {s : InMemoryRegistrar}

theorem mem_lookup {aor : List Char} {r : Registration} : r ∈ lookup I s now aor ↔ Binds s now aor r := by
  rw [lookup, List.mem_map]
  constructor
  · rintro ⟨⟨⟨aor', key⟩, r'⟩, he, rfl⟩
    obtain ⟨hin, hp⟩ := List.mem_filter.mp he
    obtain ⟨haor, hlive⟩ := Bool.and_eq_true_iff.mp hp
    obtain rfl : aor' = aor := of_decide_eq_true haor
    exact ⟨key, AList.mem_lookup_iff.mpr ((I.perm s.regs).subset hin), of_decide_eq_true hlive⟩
  · rintro ⟨key, hr, hlive⟩
    refine ⟨⟨(aor, key), r⟩, List.mem_filter.mpr ⟨(I.perm s.regs).symm.subset (AList.mem_lookup_iff.mp hr), ?_⟩, rfl⟩
    exact Bool.and_eq_true_iff.mpr ⟨decide_eq_true rfl, decide_eq_true hlive⟩

section Intervals

variable {c : ContactBinding}

/-- What is granted and not refused lies between the bounds of the policy. -/
theorem granted_bounded (hbrief : tooBrief policy req c = false) (hgranted : granted policy req c ≠ 0) :
    policy.minExpires ≤ granted policy req c ∧ granted policy req c ≤ policy.maxExpires := by
  refine ⟨?_, atMost_le _ _⟩
  rw [granted, atMost] at hgranted ⊢
  split
  next => exact policy.min_le_max
  next hle =>
    rw [if_neg hle] at hgranted
    have hpos : 0 < asked policy req c := UInt32.pos_iff_ne_zero.mpr hgranted
    rw [tooBrief, Bool.and_eq_false_iff] at hbrief
    rcases hbrief with hzero | hlong
    · exact absurd hpos (of_decide_eq_false hzero)
    · exact UInt32.not_lt.mp (of_decide_eq_false hlong)

/-- A request that is in order stores what it asks for. -/
theorem register_expires {reg : Registration} (h : isOutOfOrder s now reg.key reg.callId reg.cseq = false) :
    (register I s reg).1.expires = reg.expires := by
  rw [isOutOfOrder] at h
  rw [register]
  split
  next existing hexisting =>
    rw [hexisting] at h
    rw [if_neg (by simpa using h)]
    rfl
  next => rfl

theorem applyContact_bounded (p : Progress × InMemoryRegistrar) (hbrief : tooBrief policy req c = false)
    (h : ∀ r ∈ p.1.registered, policy.minExpires ≤ r.expires ∧ r.expires ≤ policy.maxExpires) :
    ∀ r ∈ (applyContact I V policy now req p c).1.registered,
      policy.minExpires ≤ r.expires ∧ r.expires ≤ policy.maxExpires := by
  rw [applyContact]
  split
  next => exact h
  next horder =>
    split
    next => exact h
    next hgranted =>
      intro r hr
      rcases List.mem_append.mp hr with hr | hr
      · exact h r hr
      · have hinorder : isOutOfOrder p.2 now (req.aor, c.key) req.callId req.cseq = false := by simpa using horder
        have hexpires : (register I p.2 (wanted V now req c (granted policy req c))).1.expires = granted policy req c :=
          register_expires hinorder
        rw [List.mem_singleton.mp hr, hexpires]
        exact granted_bounded hbrief hgranted

theorem contacts_bounded (contacts : List ContactBinding) (hbrief : ∀ c ∈ contacts, tooBrief policy req c = false)
    (p : Progress × InMemoryRegistrar)
    (h : ∀ r ∈ p.1.registered, policy.minExpires ≤ r.expires ∧ r.expires ≤ policy.maxExpires) :
    ∀ r ∈ (contacts.foldl (applyContact I V policy now req) p).1.registered,
      policy.minExpires ≤ r.expires ∧ r.expires ≤ policy.maxExpires := by
  induction contacts generalizing p with
  | nil => exact h
  | cons c contacts ih =>
      exact ih (fun c' hc' => hbrief c' (List.mem_cons_of_mem _ hc')) _
        (applyContact_bounded p (hbrief c List.mem_cons_self) h)

end Intervals

section Others

variable {key : RegKey}

theorem applyContact_withdraws (p : Progress × InMemoryRegistrar) {c : ContactBinding} (h : granted policy req c = 0)
    (hkey : key.1 ≠ req.aor) :
    (applyContact I V policy now req p c).2.regs.lookup key = p.2.regs.lookup key := by
  have hne : key ≠ (req.aor, c.key) := fun heq => hkey (heq ▸ rfl)
  rw [applyContact]
  split
  next => rfl
  next =>
    dsimp only
    rw [unregisterBinding]
    split
    next => rfl
    next =>
      split
      next => rfl
      next => exact AList.lookup_erase_ne hne

theorem contacts_withdraw (contacts : List ContactBinding) (h : ∀ c ∈ contacts, granted policy req c = 0)
    (hkey : key.1 ≠ req.aor) (p : Progress × InMemoryRegistrar) :
    (contacts.foldl (applyContact I V policy now req) p).2.regs.lookup key = p.2.regs.lookup key := by
  induction contacts generalizing p with
  | nil => rfl
  | cons c contacts ih =>
      rw [List.foldl_cons, ih fun c' hc' => h c' (List.mem_cons_of_mem _ hc')]
      exact applyContact_withdraws p (h c List.mem_cons_self) hkey

theorem lookup_unregisterAll (dialog : Option Dialog) (aor : List Char) (key : RegKey) :
    (unregisterAll I s now aor dialog).2.regs.lookup key =
      (s.regs.lookup key).filter fun r => !(ofAor aor key && wiped dialog r) := by
  rw [unregisterAll, lookup_sweep]
  cases s.regs.lookup key with
  | none => rfl
  | some r =>
      rw [Option.bind_some, Option.filter_some]
      cases ofAor aor key && wiped dialog r <;> rfl

theorem unregisterAll_withdraws (dialog : Option Dialog) {aor : List Char} (hkey : key.1 ≠ aor) :
    (unregisterAll I s now aor dialog).2.regs.lookup key = s.regs.lookup key := by
  have hother : ofAor aor key = false := decide_eq_false hkey
  rw [lookup_unregisterAll, hother]
  cases s.regs.lookup key <;> rfl

end Others

/-- A wildcard leaves just what its own dialog holds as not older. -/
theorem binds_unregisterAll {r : Registration} :
    Binds (unregisterAll I s now req.aor (some (req.callId, req.cseq))).2 now req.aor r ↔
      Binds s now req.aor r ∧ notNewer req.callId req.cseq r = true := by
  have hown (key : List Char) : ofAor req.aor (req.aor, key) = true := decide_eq_true rfl
  constructor
  · rintro ⟨key, hr, hlive⟩
    rw [lookup_unregisterAll, hown, Option.filter_eq_some_iff] at hr
    exact ⟨⟨key, hr.1, hlive⟩, by simpa [wiped] using hr.2⟩
  · rintro ⟨⟨key, hr, hlive⟩, hnewer⟩
    refine ⟨key, ?_, hlive⟩
    rw [lookup_unregisterAll, hown, Option.filter_eq_some_iff]
    exact ⟨hr, by simpa [wiped] using hnewer⟩

theorem contract_wildcard (hwildcard : req.wildcard = true) (hcontacts : req.contacts = [])
    (hzero : req.expiresHeader = some 0) :
    Contract policy req now s (process I V policy s now req) ↔ ¬Overtaken req now s := by
  rw [process, if_pos hwildcard, if_neg (not_not.mpr hcontacts), if_pos hzero]
  constructor
  · rintro h ⟨-, -, -, r, hbinds, hnewer⟩
    have hleft := (h.current r).mpr (binds_unregisterAll.mpr ⟨hbinds, hnewer⟩)
    cases hleft
  · intro h
    refine ⟨fun r => ⟨fun hr => (by cases hr), fun hr => ?_⟩, fun r hr => (by cases hr), fun _ key hkey => ?_⟩
    · obtain ⟨hbinds, hnewer⟩ := binds_unregisterAll.mp hr
      exact absurd ⟨hwildcard, hcontacts, hzero, r, hbinds, hnewer⟩ h
    · exact unregisterAll_withdraws _ hkey

/-- A REGISTER is refused without effect and answered truthfully, except that a
wildcard which comes too late for some binding says that there is none left. -/
theorem register_contract_iff (I : Iteration RegKey Registration) (V : Uppering) (policy : RegisterPolicy)
    (s : InMemoryRegistrar) (now : Nat) (req : RegisterRequest) :
    Contract policy req now s (process I V policy s now req) ↔ ¬Overtaken req now s := by
  by_cases hall : req.wildcard = true ∧ req.contacts = [] ∧ req.expiresHeader = some 0
  · exact contract_wildcard hall.1 hall.2.1 hall.2.2
  have hnot : ¬Overtaken req now s := fun h => hall ⟨h.1, h.2.1, h.2.2.1⟩
  refine iff_of_true ?_ hnot
  rw [process]
  split
  next hwildcard =>
    split
    next => rfl
    next hcontacts =>
      split
      next hzero => exact absurd ⟨hwildcard, not_not.mp hcontacts, hzero⟩ hall
      next => rfl
  next =>
    split
    next => exact ⟨fun r => mem_lookup, fun r hr => (by cases hr), fun _ _ _ => rfl⟩
    next =>
      split
      next => rfl
      next =>
        split
        next => rfl
        next hbrief =>
          have hlong : ∀ c ∈ req.contacts, tooBrief policy req c = false := by simpa using hbrief
          refine ⟨fun r => mem_lookup, contacts_bounded req.contacts hlong _ (fun r hr => by cases hr), fun h key hkey => ?_⟩
          exact contacts_withdraw req.contacts h hkey _

/-- One binding, of the dialog that the wildcard comes from and with its CSeq. -/
def bound : InMemoryRegistrar := (process .newestFirst (fun c => [c]) anyInterval .new 0 (requestOf ['a'] 3600 2)).2

def lateWildcard : RegisterRequest :=
  { requestOf ['a'] 3600 1 with contacts := [], wildcard := true, expiresHeader := some 0 }

theorem late_wildcard_hides_binding :
    ¬Contract anyInterval lateWildcard 0 bound (process .newestFirst (fun c => [c]) anyInterval bound 0 lateWildcard) := by
  intro h
  have hshown := (h.current _).mpr ⟨bindingKey "sip:192.0.2.1".toList none none, rfl, by decide⟩
  cases hshown

end NixiSbc.RegisterContract

import NixiSbc.Digest
import NixiSbc.StateRuns

namespace NixiSbc.DigestReplay

open TextFields KeyedTable Digest StateRuns

/-- How an accepted request used its nonce. -/
inductive Use
  | counted (nc : UInt32) (fingerprint : Option UInt64)
  | single
  deriving DecidableEq

inductive Entry
  | issued (nonce : List Char) (created : Nat)
  | evicted (nonce : List Char)
  | accepted (nonce : List Char) (now : Nat) (use : Use)
  deriving DecidableEq

def Entry.uses (nonce : List Char) : Entry → Bool
  | .accepted nonce' _ _ => nonce' = nonce
  | _ => false

/-- How many requests were accepted on a nonce. -/
def uses (nonce : List Char) (log : List Entry) : Nat := log.countP (Entry.uses nonce)

/-- After this log a request may be accepted on the nonce: it was issued, is not
too old and was not evicted. The count of an earlier request is not higher, and
if it is the same, the request is the same; a request without a count is the first. -/
def Admissible (ttl : Nat) (log : List Entry) (nonce : List Char) (now : Nat) (use : Use) : Prop :=
  (∃ created, .issued nonce created ∈ log ∧ now - created ≤ ttl) ∧ .evicted nonce ∉ log ∧
    match use with
    | .counted nc fingerprint => ∀ now' nc' fingerprint',
        .accepted nonce now' (.counted nc' fingerprint') ∈ log →
          nc' ≤ nc ∧ (nc' = nc → fingerprint' = fingerprint ∧ fingerprint.isSome = true)
    | .single => ∀ now' use', .accepted nonce now' use' ∉ log

/-- Every request in the log, newest first, was one that could be accepted. -/
def ReplaySafe (ttl : Nat) : List Entry → Prop
  | [] => True
  | .accepted nonce now use :: log => Admissible ttl log nonce now use ∧ ReplaySafe ttl log
  | _ :: log => ReplaySafe ttl log

inductive Call
  | challenge (created : Nat) (bytes : Vector UInt8 16) (stale : Bool)
  | verify (authHeader method : List Char) (fingerprint : Option UInt64)
  | cleanup
  | setUsers (users : Table (List Char) (List Char))

/-- The authenticator, with what happened to its nonces. -/
structure History where
  auth : DigestAuthenticator
  log : List Entry

/-- The nonces that a call took out of the table. -/
def gone (before after : Table (List Char) NonceRecord) : List Entry :=
  (before.keys.filter fun nonce => (after.lookup nonce).isNone).map .evicted

/-- How the credentials use their nonce. -/
def useOf (creds : DigestCredentials) (fingerprint : Option UInt64) : Use :=
  if creds.qopAuth then .counted (creds.count.getD 0) fingerprint else .single

def acceptance (now : Nat) (authHeader : List Char) (fingerprint : Option UInt64) :
    Except AuthFailure (List Char) → List Entry
  | .ok _ =>
      match DigestCredentials.fromHeader authHeader with
      | .ok creds => [.accepted creds.nonce now (useOf creds fingerprint)]
      | .error _ => []
  | .error _ => []

def step (D : Md5) (h : History) : Nat × Call → History
  | (now, .challenge created bytes stale) =>
      let a := (generateChallengeWith h.auth created now bytes stale).2
      ⟨a, .issued (generateNonce bytes) created :: (gone h.auth.nonces a.nonces ++ h.log)⟩
  | (now, .verify authHeader method fingerprint) =>
      let r := verifyWith D h.auth now authHeader method fingerprint
      ⟨r.2, acceptance now authHeader fingerprint r.1 ++ (gone h.auth.nonces r.2.nonces ++ h.log)⟩
  | (now, .cleanup) =>
      let a := (cleanupNonces h.auth now).2
      ⟨a, gone h.auth.nonces a.nonces ++ h.log⟩
  | (_, .setUsers users) =>
      let a := (setUsersHa1 h.auth users).2
      ⟨a, gone h.auth.nonces a.nonces ++ h.log⟩

/-- The nonce of a challenge is new. -/
def Distinct (h : History) : Nat × Call → Prop
  | (_, .challenge _ bytes _) => ∀ created, .issued (generateNonce bytes) created ∉ h.log
  | _ => True

/-- Credentials without a count, right and on a living nonce, on which so many
requests were accepted that their number is zero again in 32 bits. -/
def Wraps (D : Md5) (h : History) : Nat × Call → Prop
  | (now, .verify authHeader method _) => ∃ creds record,
      DigestCredentials.fromHeader authHeader = .ok creds ∧ creds.qopAuth = false ∧
        digestOk D h.auth method creds = true ∧ h.auth.nonces.lookup creds.nonce = some record ∧
        isYoung now h.auth.nonceTtl record = true ∧ 0 < uses creds.nonce h.log ∧
        2 ^ 32 ∣ uses creds.nonce h.log
  | _ => False

/-- What the record of a nonce says about the log. -/
structure Recorded (log : List Entry) (nonce : List Char) (record : NonceRecord) : Prop where
  issued : .issued nonce record.createdAt ∈ log
  kept : .evicted nonce ∉ log
  newest : ∀ now nc fingerprint, .accepted nonce now (.counted nc fingerprint) ∈ log →
    nc ≤ record.lastNc ∧ (nc = record.lastNc → fingerprint = record.lastFingerprint)
  count : record.useCount = UInt32.ofNat (uses nonce log)

structure Tracks (h : History) : Prop where
  safe : ReplaySafe h.auth.nonceTtl h.log
  recorded : ∀ nonce record, h.auth.nonces.lookup nonce = some record → Recorded h.log nonce record
  known : ∀ nonce, .evicted nonce ∈ h.log ∨ (∃ now use, .accepted nonce now use ∈ h.log) →
    ∃ created, .issued nonce created ∈ h.log

section Evictions

variable {before after : Table (List Char) NonceRecord} {log : List Entry} {nonce : List Char} {ttl : Nat}

theorem mem_gone {e : Entry} (he : e ∈ gone before after) :
    ∃ nonce, e = .evicted nonce ∧ (before.lookup nonce).isSome = true ∧ after.lookup nonce = none := by
  obtain ⟨nonce, hn, rfl⟩ := List.mem_map.mp he
  obtain ⟨hbefore, hafter⟩ := List.mem_filter.mp hn
  exact ⟨nonce, rfl, AList.lookup_isSome.mpr hbefore, Option.isNone_iff_eq_none.mp hafter⟩

theorem accepted_gone_append {now : Nat} {use : Use} :
    .accepted nonce now use ∈ gone before after ++ log ↔ .accepted nonce now use ∈ log := by
  rw [List.mem_append, or_iff_right]
  intro h
  obtain ⟨_, he, -⟩ := mem_gone h
  cases he

theorem uses_gone_append : uses nonce (gone before after ++ log) = uses nonce log := by
  have hzero : (gone before after).countP (Entry.uses nonce) = 0 := by
    rw [List.countP_eq_zero]
    intro e he
    obtain ⟨_, rfl, -⟩ := mem_gone he
    exact Bool.false_ne_true
  rw [uses, List.countP_append, hzero, Nat.zero_add, uses]

theorem replaySafe_gone_append :
    ReplaySafe ttl (gone before after ++ log) ↔ ReplaySafe ttl log := by
  rw [gone]
  induction before.keys.filter fun nonce => (after.lookup nonce).isNone with
  | nil => exact Iff.rfl
  | cons nonce rest ih => exact ih

theorem gone_eq_nil (h : ∀ nonce, (before.lookup nonce).isSome = true → after.lookup nonce ≠ none) :
    gone before after = [] := by
  rw [List.eq_nil_iff_forall_not_mem]
  intro e he
  obtain ⟨nonce, -, hbefore, hafter⟩ := mem_gone he
  exact h nonce hbefore hafter

theorem gone_insert {record : NonceRecord} (h : before.lookup nonce = none) :
    gone before (after.insert nonce record) = gone before after := by
  rw [gone, gone]
  congr 1
  apply List.filter_congr
  intro nonce' hn
  have hne : nonce' ≠ nonce := by
    rintro rfl
    have hsome := AList.lookup_isSome.mpr hn
    rw [h] at hsome
    cases hsome
  rw [AList.lookup_insert_ne hne]

end Evictions

section Steps

variable {D : Md5} {h : History} {nonce : List Char}

/-- A call that only takes nonces out of the table. -/
theorem Tracks.evict (ht : Tracks h) {a : DigestAuthenticator} (httl : a.nonceTtl = h.auth.nonceTtl)
    (hsub : ∀ nonce record, a.nonces.lookup nonce = some record →
      h.auth.nonces.lookup nonce = some record) :
    Tracks ⟨a, gone h.auth.nonces a.nonces ++ h.log⟩ := by
  constructor
  case safe =>
    rw [httl]
    exact replaySafe_gone_append.mpr ht.safe
  case recorded =>
    intro nonce record hr
    have hrec := ht.recorded nonce record (hsub nonce record hr)
    constructor
    case issued => exact List.mem_append_right _ hrec.issued
    case kept =>
      intro hmem
      rcases List.mem_append.mp hmem with hgone | hold
      · obtain ⟨_, he, -, hnone⟩ := mem_gone hgone
        cases he
        rw [hnone] at hr
        cases hr
      · exact hrec.kept hold
    case newest =>
      intro now nc fingerprint hmem
      exact hrec.newest now nc fingerprint (accepted_gone_append.mp hmem)
    case count => rw [uses_gone_append, hrec.count]
  case known =>
    rintro nonce (hev | ⟨now, use, hacc⟩)
    · rcases List.mem_append.mp hev with hgone | hold
      · obtain ⟨_, he, hsome, -⟩ := mem_gone hgone
        cases he
        obtain ⟨record, hr⟩ := Option.isSome_iff_exists.mp hsome
        exact ⟨record.createdAt, List.mem_append_right _ (ht.recorded nonce record hr).issued⟩
      · obtain ⟨created, hc⟩ := ht.known nonce (.inl hold)
        exact ⟨created, List.mem_append_right _ hc⟩
    · obtain ⟨created, hc⟩ := ht.known nonce (.inr ⟨now, use, accepted_gone_append.mp hacc⟩)
      exact ⟨created, List.mem_append_right _ hc⟩

theorem uses_eq_zero {log : List Entry} (hnone : ∀ now use, .accepted nonce now use ∉ log) :
    uses nonce log = 0 := by
  rw [uses, List.countP_eq_zero]
  intro e he huses
  cases e with
  | accepted nonce' now use =>
      obtain rfl : nonce' = nonce := of_decide_eq_true huses
      exact hnone now use he
  | issued | evicted => cases huses

theorem not_accepted_of_uses {log : List Entry} (hzero : uses nonce log = 0) (now : Nat) (use : Use) :
    .accepted nonce now use ∉ log := by
  intro hmem
  exact List.countP_eq_zero.mp hzero _ hmem (decide_eq_true rfl)

/-- An entry about another nonce changes nothing for this one. -/
theorem Recorded.cons {log : List Entry} {record : NonceRecord} (hrec : Recorded log nonce record)
    {e : Entry} (hev : e ≠ .evicted nonce) (huses : e.uses nonce = false) :
    Recorded (e :: log) nonce record := by
  constructor
  case issued => exact List.mem_cons_of_mem _ hrec.issued
  case kept =>
    intro hmem
    exact hrec.kept ((List.mem_cons.mp hmem).resolve_left hev.symm)
  case newest =>
    intro now nc fingerprint hmem
    rcases List.mem_cons.mp hmem with rfl | hold
    · exact absurd huses (ne_true_of_eq_false · (decide_eq_true rfl))
    · exact hrec.newest now nc fingerprint hold
  case count =>
    rw [uses, List.countP_cons_of_neg (ne_true_of_eq_false huses), ← uses, hrec.count]

theorem known_cons {log : List Entry} {e : Entry}
    (hknown : ∀ nonce, .evicted nonce ∈ log ∨ (∃ now use, .accepted nonce now use ∈ log) →
      ∃ created, .issued nonce created ∈ log)
    (hev : ∀ nonce, e ≠ .evicted nonce)
    (hacc : ∀ nonce now use, e = .accepted nonce now use → ∃ created, .issued nonce created ∈ log)
    (nonce : List Char)
    (h : .evicted nonce ∈ e :: log ∨ ∃ now use, .accepted nonce now use ∈ e :: log) :
    ∃ created, .issued nonce created ∈ e :: log := by
  have hold : ∃ created, .issued nonce created ∈ log := by
    rcases h with hmem | ⟨now, use, hmem⟩
    · exact hknown nonce (.inl ((List.mem_cons.mp hmem).resolve_left (hev nonce).symm))
    · rcases List.mem_cons.mp hmem with he | hmem
      · exact hacc nonce now use he.symm
      · exact hknown nonce (.inr ⟨now, use, hmem⟩)
  obtain ⟨created, hc⟩ := hold
  exact ⟨created, List.mem_cons_of_mem _ hc⟩

/-- A record for a nonce that was never issued. -/
theorem Tracks.issue (ht : Tracks h) {created : Nat}
    (hnew : ∀ created, .issued nonce created ∉ h.log) :
    Tracks ⟨{ h.auth with nonces := h.auth.nonces.insert nonce ⟨created, 0, 0, none⟩ },
      .issued nonce created :: h.log⟩ := by
  have hunused : ∀ now use, .accepted nonce now use ∉ h.log := by
    intro now use hmem
    obtain ⟨created, hc⟩ := ht.known nonce (.inr ⟨now, use, hmem⟩)
    exact hnew created hc
  have hunevicted : .evicted nonce ∉ h.log := by
    intro hmem
    obtain ⟨created, hc⟩ := ht.known nonce (.inl hmem)
    exact hnew created hc
  constructor
  case safe => exact ht.safe
  case recorded =>
    intro nonce' record hr
    by_cases hne : nonce' = nonce
    · subst hne
      obtain rfl := Option.some.inj ((AList.lookup_insert _).symm.trans hr)
      constructor
      case issued => exact List.mem_cons_self
      case kept =>
        intro hmem
        exact hunevicted ((List.mem_cons.mp hmem).resolve_left nofun)
      case newest =>
        intro now nc fingerprint hmem
        exact absurd ((List.mem_cons.mp hmem).resolve_left nofun) (hunused now _)
      case count =>
        rw [uses, List.countP_cons_of_neg Bool.false_ne_true, ← uses, uses_eq_zero hunused]
        rfl
    · exact (ht.recorded nonce' record ((AList.lookup_insert_ne hne).symm.trans hr)).cons nofun rfl
  case known => exact known_cons ht.known nofun nofun

/-- What a use of a nonce needs of its record, and what it makes of it. -/
structure Uses (record record' : NonceRecord) (use : Use) : Prop where
  created : record'.createdAt = record.createdAt
  counted : record'.useCount = record.useCount + 1
  fits : match use with
    | .counted nc fingerprint => record'.lastNc = nc ∧ record'.lastFingerprint = fingerprint ∧
        (record.lastNc < nc ∨ nc = record.lastNc ∧ fingerprint.isSome = true ∧
          fingerprint = record.lastFingerprint)
    | .single => record.useCount = 0 ∧ record'.lastNc = record.lastNc ∧
        record'.lastFingerprint = record.lastFingerprint

theorem uses_of_useNonce {record record' : NonceRecord} {creds : DigestCredentials}
    {fingerprint : Option UInt64} (hu : useNonce record creds fingerprint = .ok record') :
    Uses record record' (useOf creds fingerprint) := by
  rw [useNonce] at hu
  rw [useOf]
  split at hu
  next hq =>
    rw [if_pos hq]
    cases hcount : creds.count with
    | none =>
        rw [hcount] at hu
        cases hu
    | some nc =>
        simp only [hcount] at hu
        rw [Option.getD_some]
        split at hu
        next hlt =>
          cases hu
          exact ⟨rfl, rfl, rfl, rfl, .inl hlt⟩
        next =>
          split at hu
          next hsame =>
            cases hu
            exact ⟨rfl, rfl, hsame.1.symm, hsame.2.2.symm, .inr hsame⟩
          next => cases hu
  next hq =>
    rw [if_neg hq]
    split at hu
    next => cases hu
    next hzero =>
      cases hu
      exact ⟨rfl, rfl, UInt32.le_zero_iff.mp (UInt32.not_lt.mp hzero), rfl, rfl⟩

/-- All that a verification can do. -/
theorem verifyWith_cases (D : Md5) (a : DigestAuthenticator) (now : Nat) (authHeader method : List Char)
    (fingerprint : Option UInt64) :
    (∃ failure, verifyWith D a now authHeader method fingerprint = (.error failure, a)) ∨
      (∃ failure nonce, verifyWith D a now authHeader method fingerprint =
        (.error failure, { a with nonces := a.nonces.erase nonce })) ∨
      ∃ creds record record', DigestCredentials.fromHeader authHeader = .ok creds ∧
        a.nonces.lookup creds.nonce = some record ∧ isYoung now a.nonceTtl record = true ∧
        digestOk D a method creds = true ∧ useNonce record creds fingerprint = .ok record' ∧
        verifyWith D a now authHeader method fingerprint =
          (.ok creds.username, { a with nonces := a.nonces.insert creds.nonce record' }) := by
  rw [verifyWith]
  split
  next => exact .inl ⟨_, rfl⟩
  next creds hcreds =>
    split
    next => exact .inl ⟨_, rfl⟩
    next record hrecord =>
      split
      next => exact .inr (.inl ⟨_, creds.nonce, rfl⟩)
      next hyoung =>
        split
        next => exact .inl ⟨_, rfl⟩
        next =>
          split
          next => exact .inl ⟨_, rfl⟩
          next hok =>
            split
            next => exact .inl ⟨_, rfl⟩
            next record' huse =>
              rw [Bool.not_eq_false] at hyoung hok
              exact .inr (.inr ⟨creds, record, record', hcreds, hrecord, hyoung, hok, huse, rfl⟩)

variable {now : Nat} {use : Use} {record record' : NonceRecord}

/-- With the record of its nonce a request is accepted only when it may be, unless
the number of uses was lost. -/
theorem Recorded.admissible_iff {log : List Entry} {ttl : Nat} (hrec : Recorded log nonce record)
    (hyoung : isYoung now ttl record = true) (hu : Uses record record' use) :
    Admissible ttl log nonce now use ↔ (use = .single → uses nonce log = 0) := by
  have hissued : ∃ created, .issued nonce created ∈ log ∧ now - created ≤ ttl :=
    ⟨record.createdAt, hrec.issued, of_decide_eq_true hyoung⟩
  have hfits := hu.fits
  cases use with
  | counted nc fingerprint =>
      refine ⟨fun _ => nofun, fun _ => ⟨hissued, hrec.kept, ?_⟩⟩
      intro now' nc' fingerprint' hmem
      obtain ⟨hle, hsame⟩ := hrec.newest now' nc' fingerprint' hmem
      rcases hfits.2.2 with hlt | ⟨rfl, hsome, hlast⟩
      · refine ⟨UInt32.le_of_lt (UInt32.lt_of_le_of_lt hle hlt), ?_⟩
        rintro rfl
        exact absurd hlt (UInt32.not_lt.mpr hle)
      · exact ⟨hle, fun heq => ⟨(hsame heq).trans hlast.symm, hsome⟩⟩
  | single =>
      constructor
      · rintro ⟨-, -, hnone⟩ -
        exact uses_eq_zero hnone
      · intro hzero
        exact ⟨hissued, hrec.kept, not_accepted_of_uses (hzero rfl)⟩

theorem uses_accepted (nonce : List Char) (now : Nat) (use : Use) (log : List Entry) :
    uses nonce (.accepted nonce now use :: log) = uses nonce log + 1 :=
  List.countP_cons_of_pos (decide_eq_true rfl)

theorem Recorded.accept {log : List Entry} (hrec : Recorded log nonce record)
    (hu : Uses record record' use) : Recorded (.accepted nonce now use :: log) nonce record' := by
  have hfits := hu.fits
  constructor
  case issued =>
    rw [hu.created]
    exact List.mem_cons_of_mem _ hrec.issued
  case kept =>
    intro hmem
    exact hrec.kept ((List.mem_cons.mp hmem).resolve_left nofun)
  case newest =>
    intro now' nc' fingerprint' hmem
    rcases List.mem_cons.mp hmem with he | hold
    · cases he
      exact ⟨UInt32.le_of_eq hfits.1.symm, fun _ => hfits.2.1.symm⟩
    · obtain ⟨hle, hsame⟩ := hrec.newest now' nc' fingerprint' hold
      cases use with
      | single =>
          rw [hfits.2.1, hfits.2.2]
          exact ⟨hle, hsame⟩
      | counted nc fingerprint =>
          rw [hfits.1, hfits.2.1]
          rcases hfits.2.2 with hlt | ⟨rfl, -, hlast⟩
          · refine ⟨UInt32.le_of_lt (UInt32.lt_of_le_of_lt hle hlt), ?_⟩
            rintro rfl
            exact absurd hlt (UInt32.not_lt.mpr hle)
          · exact ⟨hle, fun heq => (hsame heq).trans hlast.symm⟩
  case count =>
    rw [hu.counted, hrec.count, uses_accepted, UInt32.ofNat_add]
    rfl

theorem Tracks.accept (ht : Tracks h) (hr : h.auth.nonces.lookup nonce = some record)
    (hyoung : isYoung now h.auth.nonceTtl record = true) (hu : Uses record record' use)
    (hfirst : use = .single → uses nonce h.log = 0) :
    Tracks ⟨{ h.auth with nonces := h.auth.nonces.insert nonce record' },
      .accepted nonce now use :: h.log⟩ := by
  have hrec := ht.recorded nonce record hr
  constructor
  case safe => exact ⟨(hrec.admissible_iff hyoung hu).mpr hfirst, ht.safe⟩
  case recorded =>
    intro nonce' record'' hr'
    by_cases hne : nonce' = nonce
    · subst hne
      obtain rfl := Option.some.inj ((AList.lookup_insert _).symm.trans hr')
      exact hrec.accept hu
    · have hother := ht.recorded nonce' record'' ((AList.lookup_insert_ne hne).symm.trans hr')
      exact hother.cons nofun (decide_eq_false (Ne.symm hne))
  case known =>
    refine known_cons ht.known nofun ?_
    rintro _ _ _ ⟨rfl⟩
    exact ⟨record.createdAt, hrec.issued⟩

theorem gone_insert_present {t : Table (List Char) NonceRecord} (record : NonceRecord) :
    gone t (t.insert nonce record) = [] := by
  apply gone_eq_nil
  intro nonce' hsome
  by_cases hne : nonce' = nonce
  · rw [hne, AList.lookup_insert]
    exact nofun
  · rw [AList.lookup_insert_ne hne]
    exact Option.isSome_iff_ne_none.mp hsome

end Steps

def History.Safe (h : History) : Prop := ReplaySafe h.auth.nonceTtl h.log

section Runs

variable {D : Md5} {h : History} {now : Nat} {authHeader method : List Char} {fingerprint : Option UInt64}
  {creds : DigestCredentials} {record record' : NonceRecord}

/-- An accepted request adds itself to the log. -/
theorem step_accepted (hcreds : DigestCredentials.fromHeader authHeader = .ok creds)
    (hv : verifyWith D h.auth now authHeader method fingerprint =
      (.ok creds.username, { h.auth with nonces := h.auth.nonces.insert creds.nonce record' })) :
    step D h (now, .verify authHeader method fingerprint) =
      ⟨{ h.auth with nonces := h.auth.nonces.insert creds.nonce record' },
        .accepted creds.nonce now (useOf creds fingerprint) :: h.log⟩ := by
  simp only [step, hv, acceptance, hcreds, gone_insert_present]
  rfl

theorem useOf_eq_single (hs : useOf creds fingerprint = .single) : creds.qopAuth = false := by
  rw [useOf] at hs
  split at hs
  next => cases hs
  next hq => exact eq_false_of_ne_true hq

theorem ofNat_eq_zero_iff (n : Nat) : UInt32.ofNat n = 0 ↔ 2 ^ 32 ∣ n := by
  rw [← UInt32.toNat_inj, UInt32.toNat_ofNat', UInt32.toNat_zero, Nat.dvd_iff_mod_eq_zero]

/-- A use count of zero that was not lost is that of a nonce without use. -/
theorem Tracks.first_of_not_wraps (ht : Tracks h)
    (hw : ¬ Wraps D h (now, .verify authHeader method fingerprint))
    (hcreds : DigestCredentials.fromHeader authHeader = .ok creds)
    (hr : h.auth.nonces.lookup creds.nonce = some record)
    (hyoung : isYoung now h.auth.nonceTtl record = true) (hok : digestOk D h.auth method creds = true)
    (hu : Uses record record' (useOf creds fingerprint)) (hs : useOf creds fingerprint = .single) :
    uses creds.nonce h.log = 0 := by
  by_contra hne
  have hcount : record.useCount = 0 := by
    have hfits := hu.fits
    rw [hs] at hfits
    exact hfits.1
  have hdvd : 2 ^ 32 ∣ uses creds.nonce h.log := by
    rw [← ofNat_eq_zero_iff, ← (ht.recorded creds.nonce record hr).count, hcount]
  exact hw ⟨creds, record, hcreds, useOf_eq_single hs, hok, hr, hyoung, Nat.pos_of_ne_zero hne, hdvd⟩

theorem lookup_of_lookup_evictNonces {now ttl : Nat} {t : Table (List Char) NonceRecord}
    {nonce : List Char} (hr : (evictNonces now ttl t).lookup nonce = some record) :
    t.lookup nonce = some record := by
  rw [evictNonces] at hr
  split at hr
  next =>
    dsimp only at hr
    split at hr
    next =>
      split at hr
      next => cases hr
      next => exact lookup_of_lookup_retain (lookup_of_lookup_retain hr)
    next => exact lookup_of_lookup_retain hr
  next => exact hr

/-- Room is made first, and then the nonce is issued. -/
theorem Tracks.evict_issue (ht : Tracks h) {nonces : Table (List Char) NonceRecord} {nonce : List Char}
    {created : Nat} (hnew : ∀ created, .issued nonce created ∉ h.log)
    (hsub : ∀ nonce record, nonces.lookup nonce = some record →
      h.auth.nonces.lookup nonce = some record) :
    Tracks ⟨{ h.auth with nonces := nonces.insert nonce ⟨created, 0, 0, none⟩ },
      .issued nonce created :: (gone h.auth.nonces (nonces.insert nonce ⟨created, 0, 0, none⟩) ++ h.log)⟩ := by
  have habsent : h.auth.nonces.lookup nonce = none := by
    cases hr : h.auth.nonces.lookup nonce with
    | none => rfl
    | some record => exact absurd (ht.recorded _ record hr).issued (hnew record.createdAt)
  have hroom : Tracks ⟨{ h.auth with nonces }, gone h.auth.nonces nonces ++ h.log⟩ := ht.evict rfl hsub
  have hnew' : ∀ created, .issued nonce created ∉ gone h.auth.nonces nonces ++ h.log := by
    intro created hmem
    rcases List.mem_append.mp hmem with hgone | hold
    · obtain ⟨_, he, -⟩ := mem_gone hgone
      cases he
    · exact hnew created hold
  rw [gone_insert habsent]
  exact hroom.issue hnew'

/-- A call that does not meet a lost use count keeps the records and the log in step. -/
theorem Tracks.step (ht : Tracks h) {e : Nat × Call} (hd : Distinct h e) (hw : ¬ Wraps D h e) :
    Tracks (step D h e) := by
  obtain ⟨now, call⟩ := e
  cases call with
  | challenge created bytes stale =>
      exact ht.evict_issue hd fun _ _ hr => lookup_of_lookup_evictNonces hr
  | cleanup => exact ht.evict rfl fun _ _ hr => lookup_of_lookup_retain hr
  | setUsers users => exact ht.evict rfl fun _ _ hr => hr
  | verify authHeader method fingerprint =>
      rcases verifyWith_cases D h.auth now authHeader method fingerprint with
        ⟨failure, hv⟩ | ⟨failure, nonce, hv⟩ | ⟨creds, record, record', hcreds, hr, hyoung, hok, hu, hv⟩
      · simp only [DigestReplay.step, hv]
        exact ht.evict rfl fun _ _ hr => hr
      · simp only [DigestReplay.step, hv]
        exact ht.evict rfl fun _ _ hr => lookup_of_lookup_erase hr
      · rw [step_accepted hcreds hv]
        have huse := uses_of_useNonce hu
        exact ht.accept hr hyoung huse (ht.first_of_not_wraps hw hcreds hr hyoung hok huse)

/-- A lost use count lets a request in that is not the first. -/
theorem Tracks.not_wraps (ht : Tracks h) {e : Nat × Call} (hsafe : (DigestReplay.step D h e).Safe) :
    ¬ Wraps D h e := by
  obtain ⟨now, call⟩ := e
  cases call with
  | challenge | cleanup | setUsers => exact id
  | verify authHeader method fingerprint =>
      rintro ⟨creds, record, hcreds, hq, hok, hr, hyoung, hpos, hdvd⟩
      have hrec := ht.recorded creds.nonce record hr
      have hzero : record.useCount = 0 := hrec.count.trans ((ofNat_eq_zero_iff _).mpr hdvd)
      have hu : useNonce record creds fingerprint =
          .ok { record with useCount := record.useCount + 1 } := by
        simp [useNonce, hq, hzero]
      have hs : useOf creds fingerprint = .single := by
        rw [useOf, if_neg (ne_true_of_eq_false hq)]
      rw [step_accepted hcreds (verifyWith_accepted hcreds hr hyoung hok hu)] at hsafe
      have hfirst := (hrec.admissible_iff hyoung (uses_of_useNonce hu)).mp hsafe.1 hs
      omega

/-- No nonce yet. -/
def History.start (realm : List Char) (nonceTtl : Nat) (users : Table (List Char) (List Char)) : History :=
  ⟨⟨realm, ∅, nonceTtl, users⟩, []⟩

theorem tracks_start (realm : List Char) (nonceTtl : Nat) (users : Table (List Char) (List Char)) :
    Tracks (.start realm nonceTtl users) where
  safe := trivial
  recorded := by
    intro nonce record hr
    cases hr
  known := by
    rintro nonce (hev | ⟨_, _, hacc⟩)
    · cases hev
    · cases hacc

end Runs

/-- In every run every accepted request is one that may be accepted after those
before it, as long as no request without a count meets a nonce whose uses went
around in 32 bits. -/
theorem replay_safe_iff_no_lost_count (D : Md5) (realm : List Char) (nonceTtl : Nat)
    (users : Table (List Char) (List Char)) {calls : List (Nat × Call)}
    (h : Throughout (step D) Distinct (.start realm nonceTtl users) calls) :
    Throughout (step D) (fun h e => (step D h e).Safe) (.start realm nonceTtl users) calls ↔
      Throughout (step D) (fun h e => ¬ Wraps D h e) (.start realm nonceTtl users) calls := by
  refine throughout_iff_of ?_ ?_ (tracks_start realm nonceTtl users) h
  · intro h e ht hd
    exact ⟨ht.not_wraps, fun hw => (ht.step hd hw).safe⟩
  · intro h e ht hd hsafe
    exact ht.step hd (ht.not_wraps hsafe)

def zeros : List Char := List.replicate 32 '0'

def oneUser : Table (List Char) (List Char) := (∅ : Table (List Char) (List Char)).insert ['a'] zeros

def authorization (tail : List Char) : List Char :=
  "Digest username=\"a\", realm=\"r\", nonce=\"".toList ++ zeros ++ "\", uri=\"s\", response=\"".toList ++
    zeros ++ '"' :: tail

def firstCount : Call := .verify (authorization ", qop=auth, nc=1".toList) "REGISTER".toList (some 7)

def noCount : Call := .verify (authorization []) "REGISTER".toList (some 8)

def firstChallenge : Call := .challenge 0 (Vector.replicate 16 0) false

/-- A request, its retransmission, and a request without a count, which is refused. -/
def repeated : List (Nat × Call) := [(0, firstChallenge), (1, firstCount), (2, firstCount), (3, noCount)]

theorem not_wraps_of_short {D : Md5} {h : History} (hshort : h.log.length < 2 ^ 32) (e : Nat × Call) :
    ¬ Wraps D h e := by
  obtain ⟨now, call⟩ := e
  cases call with
  | challenge | cleanup | setUsers => exact id
  | verify authHeader method fingerprint =>
      rintro ⟨creds, record, -, -, -, -, -, hpos, hdvd⟩
      have hle : uses creds.nonce h.log ≤ h.log.length := List.countP_le_length
      have hge := Nat.le_of_dvd hpos hdvd
      omega

theorem replay_safe_repeated :
    Throughout (step anyHash) (fun h e => (step anyHash h e).Safe) (.start ['r'] 300 oneUser) repeated := by
  refine (replay_safe_iff_no_lost_count anyHash ['r'] 300 oneUser ?_).mpr ?_
  · exact ⟨nofun, trivial, trivial, trivial, trivial⟩
  · exact ⟨not_wraps_of_short (by decide) _, not_wraps_of_short (by decide) _,
      not_wraps_of_short (by decide) _, not_wraps_of_short (by decide) _, trivial⟩

def countedCreds : DigestCredentials :=
  ⟨['a'], ['r'], zeros, ['s'], zeros, "MD5".toList, some "auth".toList, some ['1'], none⟩

/-- So often the first count was sent on the nonce. -/
structure Worn (h : History) (n : Nat) : Prop where
  tracks : Tracks h
  users : h.auth.users = oneUser
  ttl : h.auth.nonceTtl = 300
  used : uses zeros h.log = n
  record : ∃ r, h.auth.nonces.lookup zeros = some r ∧ r.createdAt = 0 ∧
    (r.lastNc = 0 ∨ r.lastNc = 1 ∧ r.lastFingerprint = some 7)

theorem digestOk_oneUser {a : DigestAuthenticator} (husers : a.users = oneUser) (method : List Char)
    {creds : DigestCredentials} (hname : creds.username = ['a']) (hresponse : creds.response = zeros) :
    digestOk anyHash a method creds = true := by
  have hhash : ∀ text, md5Hex anyHash text = zeros := by
    intro text
    change showHex 8 0 ++ showHex 8 0 ++ showHex 8 0 ++ showHex 8 0 = zeros
    decide
  have hexpected : ∀ ha1, expected anyHash ha1 method creds = zeros := by
    intro ha1
    rw [expected]
    split
    next => exact hhash _
    next => exact hhash _
  rw [digestOk, husers, hname, hexpected, hresponse]
  decide

/-- The same request is accepted again and again. -/
theorem Worn.again {h : History} {n : Nat} (hw : Worn h n) : Worn (step anyHash h (1, firstCount)) (n + 1) := by
  obtain ⟨r, hr, hcreated, hlast⟩ := hw.record
  have hcreds : DigestCredentials.fromHeader (authorization ", qop=auth, nc=1".toList) =
      .ok countedCreds := by decide
  have hyoung : isYoung 1 h.auth.nonceTtl r = true := by
    rw [isYoung, hw.ttl, hcreated]
    rfl
  have hu : ∃ r', useNonce r countedCreds (some 7) = .ok r' ∧ r'.lastNc = 1 ∧
      r'.lastFingerprint = some 7 := by
    have hq : countedCreds.qopAuth = true := by decide
    have hcount : countedCreds.count = some 1 := by decide
    rw [useNonce, if_pos hq, hcount]
    rcases hlast with hzero | ⟨hone, hseven⟩
    · simp [hzero]
    · simp [hone, hseven]
  obtain ⟨r', hu, hnc, hfp⟩ := hu
  have hstep := step_accepted hcreds (verifyWith_accepted hcreds hr hyoung
    (digestOk_oneUser hw.users "REGISTER".toList rfl rfl) hu)
  have hcreated' : r'.createdAt = 0 := (uses_of_useNonce hu).created.trans hcreated
  have htracks : Tracks (step anyHash h (1, firstCount)) := by
    refine hw.tracks.step trivial ?_
    rintro ⟨creds, -, hcreds', hq, -⟩
    rw [hcreds] at hcreds'
    cases hcreds'
    cases hq
  rw [firstCount] at htracks ⊢
  rw [hstep] at htracks ⊢
  constructor
  case tracks => exact htracks
  case users => exact hw.users
  case ttl => exact hw.ttl
  case used =>
    rw [← hw.used]
    exact uses_accepted zeros 1 _ _
  case record => exact ⟨r', AList.lookup_insert _, hcreated', .inr ⟨hnc, hfp⟩⟩

theorem worn_replicate (n : Nat) :
    Worn (((0, firstChallenge) :: List.replicate n (1, firstCount)).foldl (step anyHash)
      (.start ['r'] 300 oneUser)) n := by
  induction n with
  | zero =>
      have htracks : Tracks (step anyHash (.start ['r'] 300 oneUser) (0, firstChallenge)) :=
        (tracks_start ['r'] 300 oneUser).step nofun id
      exact ⟨htracks, rfl, rfl, rfl, _, rfl, rfl, .inl rfl⟩
  | succ n ih =>
      rw [List.replicate_succ', ← List.cons_append, List.foldl_append]
      exact ih.again

/-- The first count, so often, and then a request without a count. -/
def wornOut (n : Nat) : List (Nat × Call) :=
  (0, firstChallenge) :: List.replicate n (1, firstCount) ++ [(2, noCount)]

theorem Worn.wraps {h : History} {n : Nat} (hw : Worn h n) (hpos : 0 < n) (hdvd : 2 ^ 32 ∣ n) :
    Wraps anyHash h (2, noCount) := by
  obtain ⟨r, hr, hcreated, -⟩ := hw.record
  have hyoung : isYoung 2 h.auth.nonceTtl r = true := by
    rw [isYoung, hw.ttl, hcreated]
    rfl
  rw [← hw.used] at hpos hdvd
  exact ⟨⟨['a'], ['r'], zeros, ['s'], zeros, "MD5".toList, none, none, none⟩, r, by decide, by decide,
    digestOk_oneUser hw.users _ rfl rfl, hr, hyoung, hpos, hdvd⟩

theorem not_safe_of_worn {n : Nat} (hpos : 0 < n) (hdvd : 2 ^ 32 ∣ n) :
    ¬ Throughout (step anyHash) (fun h e => (step anyHash h e).Safe) (.start ['r'] 300 oneUser)
      (wornOut n) := by
  intro hsafe
  obtain ⟨-, hlast, -⟩ := throughout_append.mp hsafe
  have hw := worn_replicate n
  exact hw.tracks.not_wraps hlast (hw.wraps hpos hdvd)

/-- After 2 ^ 32 uses the nonce is as good as new. -/
theorem single_use_lost_wornOut :
    ¬ Throughout (step anyHash) (fun h e => (step anyHash h e).Safe) (.start ['r'] 300 oneUser)
      (wornOut (2 ^ 32)) :=
  not_safe_of_worn (by decide) (Nat.dvd_refl _)

end NixiSbc.DigestReplay

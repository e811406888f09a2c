import NixiSbc.CallerIdentity

namespace NixiSbc.Fingerprints

open Stun NetAddr KeyedTable TextFields Digest DigestReplay Registrar B2bua Identity StateRuns

/-- Credentials that a handler puts to the authenticator, with their request and
the user that it claims. -/
structure Presented where
  value : List Char
  method : List Char
  user : Option (List Char)
  print : Print
  req : Request
  source : SocketAddr

/-- A retransmission is the same in all that a registration or a call depends on. -/
structure SameRequest (x y : Presented) : Prop where
  source : x.source = y.source
  uri : x.req.uri = y.req.uri
  toHeader : x.req.header "To" = y.req.header "To"
  callId : x.req.header "Call-ID" = y.req.header "Call-ID"
  cseq : x.req.header "CSeq" = y.req.header "CSeq"
  contacts : x.req.contacts = y.req.contacts
  expires : x.req.header "Expires" = y.req.header "Expires"

/-- A request that was accepted under a nonce count. -/
structure Acceptance where
  nonce : List Char
  count : UInt32
  presented : Presented

/-- The gate, with what was accepted, newest first, and the nonces that were issued. -/
structure Watch where
  sbc : Sbc
  log : List Acceptance
  issued : List (List Char)

variable (G : Gate)

/-- The user that an INVITE from an unregistered source claims, and its credentials. -/
def proxyCredentials (s : Sbc) (now : Nat) (req : Request) (source : SocketAddr) (isLocalhost isTrunkIp : Bool)
    (fromUser : Option (List Char)) : Option (List Char × List Char) :=
  if isLocalhost then none
  else
    let (here, anywhere) := registeredUsers G s now (showIp (NetAddr.ip source))
    if isTrunkIp then none
    else if here ≠ [] then none
    else
      match fromUser with
      | some user =>
          if isLocalUser s user anywhere then (req.headerValue "proxy-authorization").map (user, ·) else none
      | none => none

def inviteCredentials (req : Request) (source : SocketAddr) (c : List Char × List Char) : Presented :=
  ⟨c.2, "INVITE".toList, some c.1, invitePrint source c.2, req, source⟩

def credentials (s : Sbc) : Nat × Event → Option Presented
  | (_, .register _ req source _ _) =>
      (req.header "Authorization").map fun v =>
        ⟨v, "REGISTER".toList, none, registerPrint req source v, req, source⟩
  | (now, .invite _ trunkIps req source) =>
      let sourceIp := showIp (NetAddr.ip source)
      (proxyCredentials G s now req source (sourceIp = "127.0.0.1".toList ∨ sourceIp = "::1".toList)
        (sourceIp ∈ trunkIps) ((req.header "From").bind G.fromUser)).map (inviteCredentials req source)
  | _ => none

/-- Without an authenticator no credentials are looked at. -/
def presented (s : Sbc) (e : Nat × Event) : Option Presented :=
  (if G.enableDigestAuth then s.auth else none).bind fun _ => credentials G s e

def verified (a : DigestAuthenticator) (now : Nat) (p : Presented) :
    Except AuthFailure (List Char) × DigestAuthenticator :=
  verifyWith G.md5 a now p.value p.method (some (G.hash p.print))

/-- The handler lets the request of an event pass. -/
def admits (s : Sbc) : Nat × Event → Bool
  | (now, .register draw req source _ _) => (authenticateRegister G s now draw req source).1.isOk
  | (now, .invite draw trunkIps req source) => (identifyCaller G s now draw trunkIps req source).1.isOk
  | _ => false

/-- The request that is accepted at an event by credentials with a count. -/
def accepted (s : Sbc) (e : Nat × Event) : List Acceptance :=
  match presented G s e with
  | none => []
  | some p =>
      match DigestCredentials.fromHeader p.value with
      | .error _ => []
      | .ok creds => if creds.qopAuth ∧ admits G s e then [⟨creds.nonce, creds.count.getD 0, p⟩] else []

/-- The nonce that is issued at an event. -/
def issued (s : Sbc) : Nat × Event → List (List Char)
  | (now, .register draw req source transport replyTx) =>
      match (handleRegister G s now draw req source transport replyTx).1 with
      | .unauthorized _ => [generateNonce draw.bytes]
      | _ => []
  | (now, .invite draw trunkIps req source) =>
      match (identifyCaller G s now draw trunkIps req source).1 with
      | .error (.challenge _) => [generateNonce draw.bytes]
      | _ => []
  | _ => []

def step (s : Watch) (e : Nat × Event) : Watch :=
  ⟨next G s.sbc e, accepted G s.sbc e ++ s.log, issued G s.sbc e ++ s.issued⟩

def Watch.start (realm : List Char) (nonceTtl : Nat) (users : Table (List Char) (List Char)) : Watch :=
  ⟨⟨some ⟨realm, ∅, nonceTtl, users⟩, .new⟩, [], []⟩

/-- Acceptances under one nonce and count are of one request. -/
def Safe (s : Watch) : Prop :=
  ∀ x ∈ s.log, ∀ y ∈ s.log, x.nonce = y.nonce → x.count = y.count → SameRequest x.presented y.presented

/-- The hash tells the prints of a run apart, and nonces are drawn only once. -/
structure Ideal (s : Watch) (e : Nat × Event) : Prop where
  hash : ∀ p, presented G s.sbc e = some p → ∀ x ∈ s.log,
    G.hash x.presented.print = G.hash p.print → x.presented.print = p.print
  fresh : ∀ nonce ∈ issued G s.sbc e, nonce ∉ s.issued

/-- Credentials of the claimed user that are right on a living nonce, and carry its
last count and the fingerprint of a request accepted under it, come with that request. -/
def Retransmits (s : Watch) (e : Nat × Event) : Prop :=
  ∀ a p creds record, s.sbc.auth = some a → presented G s.sbc e = some p →
    DigestCredentials.fromHeader p.value = .ok creds → creds.qopAuth = true →
    p.user.all (· = creds.username) = true → a.nonces.lookup creds.nonce = some record →
    isYoung e.1 a.nonceTtl record = true → digestOk G.md5 a p.method creds = true →
    creds.count = some record.lastNc →
    ∀ x ∈ s.log, x.nonce = creds.nonce → x.count = record.lastNc → x.presented.print = p.print →
      SameRequest x.presented p

section Spec

variable {G} {s : Sbc} {a : DigestAuthenticator} {now : Nat} {draw : Draw} {req : Request} {source : SocketAddr}

/-- The authenticator after the credentials of an event. -/
def afterVerify (G : Gate) (a : DigestAuthenticator) (now : Nat) (p : Option Presented) : DigestAuthenticator :=
  match p with
  | some p => (verified G a now p).2
  | none => a

/-- After the credentials a nonce may be issued, or records dropped. -/
inductive Turn (a a' : DigestAuthenticator) : List (List Char) → Prop
  | issue (draw : Draw) (stale : Bool) (h : a' = (challenge a draw stale).2) : Turn a a' [generateNonce draw.bytes]
  | rest (h : ∀ nonce record, a'.nonces.lookup nonce = some record → a.nonces.lookup nonce = some record) : Turn a a' []

theorem authenticateRegister_turn (hdigest : G.enableDigestAuth = true) (ha : s.auth = some a) (transport : Transport)
    (replyTx : Option Nat) :
    ((∃ c, (authenticateRegister G s now draw req source).1 = .error (.unauthorized c)) ∧ ∃ stale,
      (authenticateRegister G s now draw req source).2.auth =
        some (challenge (afterVerify G a now (credentials G s (now, .register draw req source transport replyTx))) draw
          stale).2) ∨
    (∀ c, (authenticateRegister G s now draw req source).1 ≠ .error (.unauthorized c)) ∧
      (authenticateRegister G s now draw req source).2.auth =
        some (afterVerify G a now (credentials G s (now, .register draw req source transport replyTx))) := by
  simp only [authenticateRegister, hdigest, if_true, ha, credentials]
  cases hvalue : req.header "Authorization" with
  | none => exact .inl ⟨⟨_, rfl⟩, false, rfl⟩
  | some authValue =>
      simp only [Option.map_some, afterVerify, verified]
      split
      next user a' hverify =>
        rw [hverify]
        exact .inr ⟨fun c h => (by cases h), rfl⟩
      next failure a' hverify =>
        rw [hverify]
        cases failure with
        | staleNonce user => exact .inl ⟨⟨_, rfl⟩, true, rfl⟩
        | replay user => exact .inl ⟨⟨_, rfl⟩, true, rfl⟩
        | badCredentials user => exact .inr ⟨fun c h => by simp [rejectRegisterAuth] at h, rfl⟩
        | unknownUser user => exact .inr ⟨fun c h => by simp [rejectRegisterAuth] at h, rfl⟩
        | malformed => exact .inr ⟨fun c h => by simp [rejectRegisterAuth] at h, rfl⟩

/-- Past the authentication nothing is challenged, and only the bindings change. -/
theorem handleRegister_auth (transport : Transport) (replyTx : Option Nat) :
    (handleRegister G s now draw req source transport replyTx).2.auth =
      (authenticateRegister G s now draw req source).2.auth ∧
    ∀ c, (handleRegister G s now draw req source transport replyTx).1 = .unauthorized c ↔
      (authenticateRegister G s now draw req source).1 = .error (.unauthorized c) := by
  rw [handleRegister]
  split
  next reply s' h => simp [h]
  next user s' h =>
    split
    next => simp [h]
    next =>
      dsimp only
      split
      next => simp [h]
      next =>
        split
        next => simp [h]
        next =>
          split
          next => simp [h]
          next => simp [h]

theorem register_turn (hdigest : G.enableDigestAuth = true) (ha : s.auth = some a) (transport : Transport)
    (replyTx : Option Nat) :
    ∃ a', (handleRegister G s now draw req source transport replyTx).2.auth = some a' ∧
      Turn (afterVerify G a now (credentials G s (now, .register draw req source transport replyTx))) a'
        (issued G s (now, .register draw req source transport replyTx)) := by
  obtain ⟨hauth, hreply⟩ := @handleRegister_auth G s now draw req source transport replyTx
  rcases @authenticateRegister_turn G s a now draw req source hdigest ha transport replyTx with
    ⟨⟨c, hc⟩, stale, hnext⟩ | ⟨hnone, hnext⟩
  · refine ⟨_, hauth.trans hnext, ?_⟩
    simp only [issued, (hreply c).mpr hc]
    exact .issue draw stale rfl
  · refine ⟨_, hauth.trans hnext, ?_⟩
    have hissued : issued G s (now, .register draw req source transport replyTx) = [] := by
      simp only [issued]
      split
      next c hc => exact absurd ((hreply c).mp hc) (hnone c)
      next => rfl
    rw [hissued]
    exact .rest fun _ _ hr => hr

/-- The caller is identified by the credentials, or they are not looked at. -/
theorem classifyCaller_credentials (hdigest : G.enableDigestAuth = true) (ha : s.auth = some a)
    (trunkIps : List (List Char)) (isLocalhost isTrunkIp : Bool) (fromUser : Option (List Char)) :
    (proxyCredentials G s now req source isLocalhost isTrunkIp fromUser = none ∧
      (classifyCaller G s now trunkIps req source isLocalhost isTrunkIp fromUser).2.auth = some a) ∨
    ∃ c, proxyCredentials G s now req source isLocalhost isTrunkIp fromUser = some c ∧
      classifyCaller G s now trunkIps req source isLocalhost isTrunkIp fromUser =
        (verdictOf c.1 (verified G a now (inviteCredentials req source c)).1,
          { s with auth := some (verified G a now (inviteCredentials req source c)).2 }) := by
  simp only [classifyCaller, proxyCredentials]
  by_cases hlocal : isLocalhost = true
  · simp only [if_pos hlocal]
    exact .inl ⟨trivial, ha⟩
  simp only [if_neg hlocal]
  by_cases htrunk : isTrunkIp = true
  · simp only [if_pos htrunk]
    exact .inl ⟨trivial, ha⟩
  simp only [if_neg htrunk]
  by_cases hhere : (registeredUsers G s now (showIp (NetAddr.ip source))).1 ≠ []
  · simp only [if_pos hhere]
    refine .inl ⟨trivial, ?_⟩
    split
    next => split <;> exact ha
    next => exact ha
  simp only [if_neg hhere]
  cases fromUser with
  | none => exact .inl ⟨rfl, ha⟩
  | some user =>
      dsimp only
      by_cases hlocalUser : isLocalUser s user (registeredUsers G s now (showIp (NetAddr.ip source))).2 = true
      · simp only [if_pos hlocalUser, proveCaller, hdigest, if_true, ha]
        cases req.headerValue "proxy-authorization" with
        | none => exact .inl ⟨rfl, ha⟩
        | some value => exact .inr ⟨(user, value), rfl, rfl⟩
      · simp only [if_neg hlocalUser]
        exact .inl ⟨trivial, ha⟩

theorem classifyCaller_auth (hdigest : G.enableDigestAuth = true) (ha : s.auth = some a) (trunkIps : List (List Char))
    (isLocalhost isTrunkIp : Bool) (fromUser : Option (List Char)) :
    (classifyCaller G s now trunkIps req source isLocalhost isTrunkIp fromUser).2.auth =
      some (afterVerify G a now
        ((proxyCredentials G s now req source isLocalhost isTrunkIp fromUser).map (inviteCredentials req source))) := by
  rcases @classifyCaller_credentials G s a now req source hdigest ha trunkIps isLocalhost isTrunkIp fromUser with
    ⟨hnone, hauth⟩ | ⟨c, hc, hresult⟩
  · rw [hnone, hauth]
    rfl
  · rw [hc, hresult]
    rfl

theorem invite_turn (hdigest : G.enableDigestAuth = true) (ha : s.auth = some a) (trunkIps : List (List Char)) :
    ∃ a', (identifyCaller G s now draw trunkIps req source).2.auth = some a' ∧
      Turn (afterVerify G a now (credentials G s (now, .invite draw trunkIps req source))) a'
        (issued G s (now, .invite draw trunkIps req source)) := by
  have hauth := @classifyCaller_auth G s a now req source hdigest ha trunkIps
    (decide (showIp (NetAddr.ip source) = "127.0.0.1".toList ∨ showIp (NetAddr.ip source) = "::1".toList))
    (decide (showIp (NetAddr.ip source) ∈ trunkIps)) ((req.header "From").bind G.fromUser)
  simp only [issued, identifyCaller, credentials]
  split
  next caller s' hresult =>
    rw [hresult] at hauth
    exact ⟨_, hauth, .rest fun _ _ hr => hr⟩
  next verdict s' hresult =>
    rw [hresult] at hauth
    cases verdict with
    | challenge stale =>
        dsimp only at hauth
        simp only [answerIdentityVerdict, hauth]
        exact ⟨_, rfl, .issue draw stale rfl⟩
    | forbidden strike why => exact ⟨_, hauth, .rest fun _ _ hr => hr⟩
    | badRequest => exact ⟨_, hauth, .rest fun _ _ hr => hr⟩

/-- All that an event does to the authenticator. -/
theorem next_turn (hdigest : G.enableDigestAuth = true) (ha : s.auth = some a) (e : Nat × Event) :
    ∃ a', (next G s e).auth = some a' ∧ Turn (afterVerify G a e.1 (credentials G s e)) a' (issued G s e) := by
  obtain ⟨now, event⟩ := e
  cases event with
  | register draw req source transport replyTx => exact register_turn hdigest ha transport replyTx
  | invite draw trunkIps req source => exact invite_turn hdigest ha trunkIps
  | cleanup =>
      exact ⟨(cleanupNonces a now).2, by simp [next, ha], .rest fun _ _ hr => lookup_of_lookup_retain hr⟩
  | connectionClosed peer => exact ⟨a, ha, .rest fun _ _ hr => hr⟩
  | setUsers users => exact ⟨(setUsersHa1 a users).2, by simp [next, ha], .rest fun _ _ hr => hr⟩

theorem identifyCaller_isOk (trunkIps : List (List Char)) :
    (identifyCaller G s now draw trunkIps req source).1.isOk =
      (classifyCaller G s now trunkIps req source
        (decide (showIp (NetAddr.ip source) = "127.0.0.1".toList ∨ showIp (NetAddr.ip source) = "::1".toList))
        (decide (showIp (NetAddr.ip source) ∈ trunkIps)) ((req.header "From").bind G.fromUser)).1.isOk := by
  simp only [identifyCaller]
  split
  next caller s' h => rw [h]
  next verdict s' h => rw [h]

/-- The claimed user is the one that was proved. -/
theorem verdictOf_isOk (claimed : List Char) (r : Except AuthFailure (List Char)) :
    (verdictOf claimed r).isOk = true ↔ ∃ user, r = .ok user ∧ (some claimed).all (· = user) = true := by
  cases r with
  | ok proved =>
      by_cases heq : proved = claimed
      · subst heq
        simp [verdictOf, Except.isOk, Except.toBool]
      · simp [verdictOf, heq, Ne.symm heq, Except.isOk, Except.toBool]
  | error failure => cases failure <;> simp [verdictOf, Except.isOk, Except.toBool]

/-- The credentials alone decide whether their request passes. -/
theorem admits_iff (hdigest : G.enableDigestAuth = true) (ha : s.auth = some a) {e : Nat × Event} {p : Presented}
    (hp : credentials G s e = some p) :
    admits G s e = true ↔ ∃ user, (verified G a e.1 p).1 = .ok user ∧ p.user.all (· = user) = true := by
  obtain ⟨now, event⟩ := e
  cases event with
  | register draw req source transport replyTx =>
      obtain ⟨value, hvalue, rfl⟩ := Option.map_eq_some_iff.mp hp
      simp only [admits, authenticateRegister, hdigest, if_true, ha, hvalue, verified, Option.all_none, and_true]
      split
      next user a' hverify =>
        rw [hverify]
        exact iff_of_true rfl ⟨user, rfl⟩
      next failure a' hverify =>
        rw [hverify]
        refine iff_of_false Bool.false_ne_true ?_
        rintro ⟨user, hok, -⟩
  | invite draw trunkIps req source =>
      obtain ⟨c, hc, rfl⟩ := Option.map_eq_some_iff.mp hp
      rcases @classifyCaller_credentials G s a now req source hdigest ha trunkIps
          (decide (showIp (NetAddr.ip source) = "127.0.0.1".toList ∨ showIp (NetAddr.ip source) = "::1".toList))
          (decide (showIp (NetAddr.ip source) ∈ trunkIps)) ((req.header "From").bind G.fromUser) with
        ⟨hnone, -⟩ | ⟨c', hc', hresult⟩
      · rw [hnone] at hc
        cases hc
      · obtain rfl : c' = c := Option.some.inj (hc'.symm.trans hc)
        rw [admits, identifyCaller_isOk, hresult]
        exact verdictOf_isOk _ _
  | cleanup => cases hp
  | connectionClosed peer => cases hp
  | setUsers users => cases hp

end Spec

section Admissions

variable {G} {a : DigestAuthenticator}

/-- One use of a nonce takes its count up, or leaves its count and fingerprint. -/
def Advances (record record' : NonceRecord) : Prop :=
  record.lastNc < record'.lastNc ∨
    record'.lastNc = record.lastNc ∧ record'.lastFingerprint = record.lastFingerprint

theorem advances_of_uses {record record' : NonceRecord} {use : Use} (hu : Uses record record' use) :
    Advances record record' := by
  have hfits := hu.fits
  cases use with
  | counted nc fingerprint =>
      obtain ⟨hnc, hfp, hlt | ⟨heq, -, hlast⟩⟩ := hfits
      · rw [← hnc] at hlt
        exact .inl hlt
      · exact .inr ⟨hnc.trans heq, hfp.trans hlast⟩
  | single => exact .inr hfits.2

theorem afterVerify_advances {now : Nat} {p : Option Presented} {nonce : List Char} {record' : NonceRecord}
    (hr : (afterVerify G a now p).nonces.lookup nonce = some record') :
    ∃ record, a.nonces.lookup nonce = some record ∧ Advances record record' := by
  have hkept : a.nonces.lookup nonce = some record' → ∃ record, a.nonces.lookup nonce = some record ∧
      Advances record record' := fun h => ⟨record', h, .inr ⟨rfl, rfl⟩⟩
  cases p with
  | none => exact hkept hr
  | some p =>
      rcases verifyWith_cases G.md5 a now p.value p.method (some (G.hash p.print)) with
        ⟨failure, h⟩ | ⟨failure, gone, h⟩ | ⟨creds, record, used, -, hfound, -, -, huse, h⟩
      · simp only [afterVerify, verified, h] at hr
        exact hkept hr
      · simp only [afterVerify, verified, h] at hr
        exact hkept (lookup_of_lookup_erase hr)
      · simp only [afterVerify, verified, h] at hr
        by_cases hnonce : nonce = creds.nonce
        · subst hnonce
          obtain rfl := Option.some.inj ((AList.lookup_insert _).symm.trans hr)
          exact ⟨record, hfound, advances_of_uses (uses_of_useNonce huse)⟩
        · exact hkept ((AList.lookup_insert_ne hnonce).symm.trans hr)

/-- How credentials with a count come to be accepted. -/
structure Admission (G : Gate) (a : DigestAuthenticator) (now : Nat) (x : Acceptance) (creds : DigestCredentials)
    (record record' : NonceRecord) : Prop where
  parsed : DigestCredentials.fromHeader x.presented.value = .ok creds
  counted : creds.qopAuth = true
  user : x.presented.user.all (· = creds.username) = true
  nonce : creds.nonce = x.nonce
  count : creds.count = some x.count
  found : a.nonces.lookup creds.nonce = some record
  young : isYoung now a.nonceTtl record = true
  digest : digestOk G.md5 a x.presented.method creds = true
  used : useNonce record creds (some (G.hash x.presented.print)) = .ok record'

theorem Admission.verified {now : Nat} {x : Acceptance} {creds : DigestCredentials} {record record' : NonceRecord}
    (h : Admission G a now x creds record record') :
    verified G a now x.presented = (.ok creds.username, { a with nonces := a.nonces.insert creds.nonce record' }) :=
  verifyWith_accepted h.parsed h.found h.young h.digest h.used

theorem count_of_useNonce {record record' : NonceRecord} {creds : DigestCredentials} {fingerprint : Option UInt64}
    (hcounted : creds.qopAuth = true) (hu : useNonce record creds fingerprint = .ok record') :
    creds.count = some (creds.count.getD 0) := by
  cases hcount : creds.count with
  | none =>
      rw [useNonce, if_pos hcounted, hcount] at hu
      cases hu
  | some nc => rfl

theorem mem_accepted_iff (hdigest : G.enableDigestAuth = true) {s : Sbc} (ha : s.auth = some a) {e : Nat × Event}
    {x : Acceptance} : x ∈ accepted G s e ↔
      presented G s e = some x.presented ∧ ∃ creds record record', Admission G a e.1 x creds record record' := by
  have hpresented : presented G s e = credentials G s e := by simp [presented, hdigest, ha]
  constructor
  · intro hx
    rw [accepted] at hx
    split at hx
    next => cases hx
    next p hp =>
      split at hx
      next => cases hx
      next creds hcreds =>
        split at hx
        next hpass =>
          obtain rfl := List.mem_singleton.mp hx
          obtain ⟨user, hok, huser⟩ := (admits_iff hdigest ha (hpresented.symm.trans hp)).mp hpass.2
          refine ⟨hp, ?_⟩
          rcases verifyWith_cases G.md5 a e.1 p.value p.method (some (G.hash p.print)) with
            ⟨failure, h⟩ | ⟨failure, nonce, h⟩ | ⟨creds', record, record', hcreds', hr, hyoung, hdig, huse, h⟩
          · rw [verified, h] at hok
            cases hok
          · rw [verified, h] at hok
            cases hok
          · obtain rfl : creds' = creds := Except.ok.inj (hcreds'.symm.trans hcreds)
            rw [verified, h] at hok
            obtain rfl := Except.ok.inj hok
            exact ⟨creds', record, record', hcreds, hpass.1, huser, rfl, count_of_useNonce hpass.1 huse, hr, hyoung,
              hdig, huse⟩
        next => cases hx
  · rintro ⟨hp, creds, record, record', h⟩
    have hpass : admits G s e = true :=
      (admits_iff hdigest ha (hpresented.symm.trans hp)).mpr ⟨creds.username, by rw [h.verified], h.user⟩
    simp only [accepted, hp, h.parsed, h.counted, hpass, and_self, if_true, h.nonce, h.count, Option.getD_some]
    exact List.mem_singleton_self x

end Admissions

section Invariant

variable {G} {s : Watch} {e : Nat × Event}

/-- What the record of a nonce says of the acceptances under it. -/
structure Counted (G : Gate) (log : List Acceptance) (nonce : List Char) (record : NonceRecord) : Prop where
  below : ∀ x ∈ log, x.nonce = nonce → x.count ≤ record.lastNc
  print : ∀ x ∈ log, x.nonce = nonce → x.count = record.lastNc →
    record.lastFingerprint = some (G.hash x.presented.print)

structure Watched (G : Gate) (s : Watch) : Prop where
  live : G.enableDigestAuth = true → ∃ a, s.sbc.auth = some a ∧ ∀ nonce record, a.nonces.lookup nonce = some record →
    nonce ∈ s.issued ∧ Counted G s.log nonce record
  known : ∀ x ∈ s.log, x.nonce ∈ s.issued
  safe : Safe s

theorem accepted_of_disabled (hdigest : G.enableDigestAuth ≠ true) (sbc : Sbc) : accepted G sbc e = [] := by
  simp [accepted, presented, hdigest]

/-- At most one request is accepted at an event. -/
theorem accepted_subsingleton {sbc : Sbc} {x y : Acceptance} (hx : x ∈ accepted G sbc e)
    (hy : y ∈ accepted G sbc e) : x = y := by
  rw [accepted] at hx hy
  split at hx
  next => cases hx
  next p hp =>
    split at hx
    next => cases hx
    next creds hcreds =>
      simp only [hp, hcreds] at hy
      split at hx
      next hpass =>
        rw [if_pos hpass] at hy
        exact (List.mem_singleton.mp hx).trans (List.mem_singleton.mp hy).symm
      next => cases hx

/-- The record of an accepted request, once it is used. -/
theorem Admission.lookup {a : DigestAuthenticator} {now : Nat} {x : Acceptance} {creds : DigestCredentials}
    {record record' : NonceRecord} (h : Admission G a now x creds record record') :
    (afterVerify G a now (some x.presented)).nonces.lookup x.nonce = some record' := by
  rw [afterVerify, h.verified, ← h.nonce]
  exact AList.lookup_insert _

theorem Admission.fits {a : DigestAuthenticator} {now : Nat} {x : Acceptance} {creds : DigestCredentials}
    {record record' : NonceRecord} (h : Admission G a now x creds record record') :
    record'.lastNc = x.count ∧ record'.lastFingerprint = some (G.hash x.presented.print) ∧
      (record.lastNc < x.count ∨
        x.count = record.lastNc ∧ record.lastFingerprint = some (G.hash x.presented.print)) := by
  have hfits := (uses_of_useNonce h.used).fits
  rw [useOf, if_pos h.counted, h.count] at hfits
  obtain ⟨hnc, hfp, hlt | ⟨heq, -, hlast⟩⟩ := hfits
  · exact ⟨hnc, hfp, .inl hlt⟩
  · exact ⟨hnc, hfp, .inr ⟨heq, hlast.symm⟩⟩

theorem Counted.advance {log : List Acceptance} {nonce : List Char} {record record' : NonceRecord}
    (h : Counted G log nonce record) (hadv : Advances record record') : Counted G log nonce record' := by
  rcases hadv with hlt | ⟨hnc, hfp⟩
  · constructor
    case below =>
      intro x hx hn
      exact UInt32.le_of_lt (UInt32.lt_of_le_of_lt (h.below x hx hn) hlt)
    case print =>
      intro x hx hn hcount
      exact absurd (hcount ▸ h.below x hx hn) (UInt32.not_le.mpr hlt)
  · constructor
    case below =>
      rw [hnc]
      exact h.below
    case print =>
      rw [hnc, hfp]
      exact h.print

theorem presented_of_enabled {sbc : Sbc} {a : DigestAuthenticator} (hdigest : G.enableDigestAuth = true)
    (ha : sbc.auth = some a) : presented G sbc e = credentials G sbc e := by
  simp [presented, hdigest, ha]

/-- After the credentials of an event the records say what was accepted, this
request included. -/
theorem counted_afterVerify (hdigest : G.enableDigestAuth = true) {a : DigestAuthenticator} (ha : s.sbc.auth = some a)
    (hlive : ∀ nonce record, a.nonces.lookup nonce = some record → nonce ∈ s.issued ∧ Counted G s.log nonce record)
    {nonce : List Char} {record' : NonceRecord}
    (hr : (afterVerify G a e.1 (credentials G s.sbc e)).nonces.lookup nonce = some record') :
    nonce ∈ s.issued ∧ Counted G (accepted G s.sbc e ++ s.log) nonce record' := by
  obtain ⟨record, hfound, hadv⟩ := afterVerify_advances hr
  obtain ⟨hissued, hcounted⟩ := hlive nonce record hfound
  have hold := hcounted.advance hadv
  have hnew : ∀ x ∈ accepted G s.sbc e, x.nonce = nonce →
      record'.lastNc = x.count ∧ record'.lastFingerprint = some (G.hash x.presented.print) := by
    rintro x hx rfl
    obtain ⟨hp, creds, before, after, hadm⟩ := (mem_accepted_iff hdigest ha).mp hx
    rw [← presented_of_enabled hdigest ha, hp] at hr
    obtain rfl := Option.some.inj (hadm.lookup.symm.trans hr)
    exact ⟨hadm.fits.1, hadm.fits.2.1⟩
  refine ⟨hissued, ?_, ?_⟩
  · intro x hx hn
    rcases List.mem_append.mp hx with hx | hx
    · exact UInt32.le_of_eq (hnew x hx hn).1.symm
    · exact hold.below x hx hn
  · intro x hx hn hcount
    rcases List.mem_append.mp hx with hx | hx
    · exact (hnew x hx hn).2
    · exact hold.print x hx hn hcount

theorem Watched.known_step (hw : Watched G s) {x : Acceptance} (hx : x ∈ (step G s e).log) : x.nonce ∈ s.issued := by
  rcases List.mem_append.mp hx with hnew | hold
  · by_cases hdigest : G.enableDigestAuth = true
    · obtain ⟨a, ha, hlive⟩ := hw.live hdigest
      obtain ⟨-, creds, record, record', hadm⟩ := (mem_accepted_iff hdigest ha).mp hnew
      rw [← hadm.nonce]
      exact (hlive _ _ hadm.found).1
    · rw [accepted_of_disabled hdigest] at hnew
      cases hnew
  · exact hw.known x hold

/-- A safe event leaves the records true. -/
theorem Watched.step (hw : Watched G s) (hideal : Ideal G s e) (hsafe : Safe (step G s e)) :
    Watched G (step G s e) := by
  refine ⟨?live, fun x hx => List.mem_append_right _ (hw.known_step hx), hsafe⟩
  case live =>
    intro hdigest
    obtain ⟨a, ha, hlive⟩ := hw.live hdigest
    obtain ⟨a', ha', hturn⟩ := next_turn hdigest ha e
    refine ⟨a', ha', ?_⟩
    intro nonce record hr
    have hkept : ∀ {record}, (afterVerify G a e.1 (credentials G s.sbc e)).nonces.lookup nonce = some record →
        nonce ∈ issued G s.sbc e ++ s.issued ∧ Counted G (accepted G s.sbc e ++ s.log) nonce record := by
      intro record hrec
      have h := counted_afterVerify hdigest ha hlive hrec
      exact ⟨List.mem_append_right _ h.1, h.2⟩
    generalize hl : issued G s.sbc e = l at hturn
    cases hturn with
    | issue draw stale h =>
        subst h
        by_cases hnonce : nonce = generateNonce draw.bytes
        · -- the nonce is new, so nothing was accepted under it
          have hunused : ∀ x ∈ (Fingerprints.step G s e).log, x.nonce ≠ nonce := by
            rintro x hx rfl
            refine hideal.fresh x.nonce ?_ (hw.known_step hx)
            rw [hl, hnonce]
            exact List.mem_singleton_self _
          refine ⟨?_, fun x hx hn => absurd hn (hunused x hx), fun x hx hn => absurd hn (hunused x hx)⟩
          rw [hnonce]
          exact List.mem_append_left _ (hl ▸ List.mem_singleton_self _)
        · exact hkept (lookup_of_lookup_evictNonces ((AList.lookup_insert_ne hnonce).symm.trans hr))
    | rest h => exact hkept (h nonce record hr)

theorem SameRequest.refl (x : Presented) : SameRequest x x := ⟨rfl, rfl, rfl, rfl, rfl, rfl, rfl⟩

theorem SameRequest.symm {x y : Presented} (h : SameRequest x y) : SameRequest y x :=
  ⟨h.source.symm, h.uri.symm, h.toHeader.symm, h.callId.symm, h.cseq.symm, h.contacts.symm, h.expires.symm⟩

theorem safe_step_iff (hsafe : Safe s) : Safe (step G s e) ↔ ∀ x ∈ accepted G s.sbc e, ∀ y ∈ s.log,
    y.nonce = x.nonce → y.count = x.count → SameRequest y.presented x.presented := by
  constructor
  · intro h x hx y hy
    exact h y (List.mem_append_right _ hy) x (List.mem_append_left _ hx)
  · intro h x hx y hy hnonce hcount
    rcases List.mem_append.mp hx with hx | hx <;> rcases List.mem_append.mp hy with hy | hy
    · rw [accepted_subsingleton hx hy]
      exact .refl _
    · exact (h x hx y hy hnonce.symm hcount.symm).symm
    · exact h y hy x hx hnonce hcount
    · exact hsafe x hx y hy hnonce hcount

/-- An event keeps the log safe exactly when credentials that come back with their
fingerprint come with their request. -/
theorem Watched.safe_iff (hw : Watched G s) (hideal : Ideal G s e) : Safe (Fingerprints.step G s e) ↔ Retransmits G s e := by
  rw [safe_step_iff hw.safe]
  constructor
  · intro h a p creds record ha hp hparsed hcounted huser hr hyoung hok hcount x hx hnonce hlast hprint
    have hdigest : G.enableDigestAuth = true := by
      by_contra hoff
      simp [presented, hoff] at hp
    obtain ⟨a', ha', hlive⟩ := hw.live hdigest
    obtain rfl := Option.some.inj (ha'.symm.trans ha)
    have hfp := (hlive creds.nonce record hr).2.print x hx hnonce hlast
    rw [hprint] at hfp
    refine h ⟨creds.nonce, record.lastNc, p⟩ ((mem_accepted_iff hdigest ha).mpr ⟨hp, creds, record, ?_, ?_⟩) x hx hnonce
      hlast
    · exact { record with useCount := record.useCount + 1 }
    · refine ⟨hparsed, hcounted, huser, rfl, hcount, hr, hyoung, hok, ?_⟩
      simp [useNonce, hcounted, hcount, hfp, UInt32.lt_irrefl]
  · intro h x hx y hy hnonce hcount
    by_cases hdigest : G.enableDigestAuth = true
    · obtain ⟨a, ha, hlive⟩ := hw.live hdigest
      obtain ⟨hp, creds, record, record', hadm⟩ := (mem_accepted_iff hdigest ha).mp hx
      have hrec := (hlive creds.nonce record hadm.found).2
      have hn : y.nonce = creds.nonce := hnonce.trans hadm.nonce.symm
      rcases hadm.fits.2.2 with hlt | ⟨hlast, hfp⟩
      · exact absurd (hcount ▸ hrec.below y hy hn) (UInt32.not_le.mpr hlt)
      · have hhash := Option.some.inj ((hrec.print y hy hn (hcount.trans hlast)).symm.trans hfp)
        exact h a x.presented creds record ha hp hadm.parsed hadm.counted hadm.user hadm.found hadm.young hadm.digest
          (hadm.count.trans (congrArg some hlast)) y hy hn (hcount.trans hlast) (hideal.hash _ hp y hy hhash)
    · rw [accepted_of_disabled hdigest] at hx
      cases hx

end Invariant

theorem watched_start (G : Gate) (realm : List Char) (nonceTtl : Nat) (users : Table (List Char) (List Char)) :
    Watched G (.start realm nonceTtl users) :=
  ⟨fun _ => ⟨_, rfl, fun _ _ hr => by cases hr⟩, nofun, nofun⟩

/-- A digest is good for one request as long as its fingerprint comes back only with
that request. -/
theorem digest_for_one_request_iff (G : Gate) (realm : List Char) (nonceTtl : Nat)
    (users : Table (List Char) (List Char)) (events : List (Nat × Event))
    (h : Throughout (step G) (Ideal G) (.start realm nonceTtl users) events) :
    Throughout (step G) (fun s e => Safe (step G s e)) (.start realm nonceTtl users) events ↔
      Throughout (step G) (Retransmits G) (.start realm nonceTtl users) events :=
  throughout_iff_of (fun _ _ hw hideal => hw.safe_iff hideal) (fun _ _ hw hideal hsafe => hw.step hideal hsafe)
    (watched_start G realm nonceTtl users) h

section Captured

open CallerIdentity

instance (x y : Presented) : Decidable (SameRequest x y) :=
  decidable_of_iff (x.source = y.source ∧ x.req.uri = y.req.uri ∧ x.req.header "To" = y.req.header "To" ∧
      x.req.header "Call-ID" = y.req.header "Call-ID" ∧ x.req.header "CSeq" = y.req.header "CSeq" ∧
      x.req.contacts = y.req.contacts ∧ x.req.header "Expires" = y.req.header "Expires")
    ⟨fun ⟨hs, hu, ht, hi, hc, hcs, he⟩ => ⟨hs, hu, ht, hi, hc, hcs, he⟩,
      fun ⟨hs, hu, ht, hi, hc, hcs, he⟩ => ⟨hs, hu, ht, hi, hc, hcs, he⟩⟩

instance (s : Watch) : Decidable (Safe s) := by unfold Safe; infer_instance

instance (G : Gate) (s : Watch) (e : Nat × Event) : Decidable (Ideal G s e) :=
  decidable_of_iff ((∀ p ∈ presented G s.sbc e, ∀ x ∈ s.log,
      G.hash x.presented.print = G.hash p.print → x.presented.print = p.print) ∧
      ∀ nonce ∈ issued G s.sbc e, nonce ∉ s.issued)
    ⟨fun h => ⟨h.1, h.2⟩, fun h => ⟨h.hash, h.fresh⟩⟩

/-- A registration and its retransmission. -/
theorem retransmitted_registration :
    Throughout (step plainGate) (Retransmits plainGate) (.start ['r'] 300 DigestReplay.oneUser)
      (registered ++ [(1, .register firstDraw (registration true) phone .udp none)]) :=
  (digest_for_one_request_iff plainGate ['r'] 300 DigestReplay.oneUser _ (by decide +kernel)).mp (by decide +kernel)

def numberingGate : Gate := { plainGate with cseqNumber := fun value => parseU32 (value.takeWhile (· ≠ ' ')) }

/-- The registration with its contact taken back under a higher CSeq. -/
def unregistration : Request :=
  { registration true with headers := (registration true).headers ++
      [("CSeq".toList, "2 REGISTER".toList), ("Expires".toList, ['0'])] }

def captured : List (Nat × Event) := registered ++ [(0, .register firstDraw unregistration phone .udp none)]

theorem captured_digest_unregisters :
    Throughout (step numberingGate) (Ideal numberingGate) (.start ['r'] 300 DigestReplay.oneUser) captured ∧
      ¬ Throughout (step numberingGate) (fun s e => Safe (step numberingGate s e))
        (.start ['r'] 300 DigestReplay.oneUser) captured ∧
      (registered.foldl (step numberingGate) (.start ['r'] 300 DigestReplay.oneUser)).sbc.registrar.regs.entries ≠ [] ∧
      (captured.foldl (step numberingGate) (.start ['r'] 300 DigestReplay.oneUser)).sbc.registrar.regs.entries = [] := by
  decide +kernel

end Captured

end NixiSbc.Fingerprints

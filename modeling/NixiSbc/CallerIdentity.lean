import NixiSbc.AddressTexts
import NixiSbc.DigestReplay
import NixiSbc.Identity
import NixiSbc.RegisterOrder

namespace NixiSbc.CallerIdentity

open Stun NetAddr KeyedTable Eviction TextFields Digest Registrar RegistrarCaps RegisterOrder B2bua Identity AddressTexts

/-- Who sent a REGISTER and as whom it was verified. -/
structure Proof where
  source : SocketAddr
  user : List Char

/-- The gate, with the REGISTER that last changed each binding. -/
structure Tracked where
  sbc : Sbc
  origins : RegKey → Option Proof

/-- The proof that a REGISTER carries. -/
def proofOf (G : Gate) (s : Sbc) (now : Nat) (req : Request) (source : SocketAddr) : Option Proof :=
  match s.auth, req.header "Authorization" with
  | some a, some authValue =>
      match (verifyWith G.md5 a now authValue "REGISTER".toList
          (some (G.hash (registerPrint req source authValue)))).1 with
      | .ok user => some ⟨source, user⟩
      | .error _ => none
  | _, _ => none

/-- A binding that a request changed has that request's proof. -/
def retrace (before after : InMemoryRegistrar) (proof : Option Proof) (origins : RegKey → Option Proof) :
    RegKey → Option Proof :=
  fun key => if after.regs.lookup key = before.regs.lookup key then origins key else proof

def step (G : Gate) (s : Tracked) (e : Nat × Event) : Tracked where
  sbc := next G s.sbc e
  origins :=
    match e with
    | (now, .register _ req source _ _) =>
        retrace s.sbc.registrar (next G s.sbc e).registrar (proofOf G s.sbc now req source) s.origins
    | _ => s.origins

def Tracked.start (a : DigestAuthenticator) : Tracked := ⟨⟨some a, .new⟩, fun _ => none⟩

section Bindings

variable {I : Iteration RegKey Registration} {V : Uppering} {policy : RegisterPolicy} {now : Nat}
  {req : RegisterRequest} {s s' s'' : InMemoryRegistrar} {aor ip : List Char}

/-- Bindings are kept under their own address of record. -/
def Keyed (s : InMemoryRegistrar) : Prop := ∀ key reg, s.regs.lookup key = some reg → reg.aor = key.1

/-- What is new among the bindings is of this address of record and from this IP. -/
structure Stems (s s' : InMemoryRegistrar) (aor ip : List Char) : Prop where
  keyed : Keyed s'
  fresh : ∀ key reg, s'.regs.lookup key = some reg →
    s.regs.lookup key = some reg ∨ key.1 = aor ∧ reg.receivedIp = ip

theorem Stems.refl (h : Keyed s) : Stems s s aor ip := ⟨h, fun _ _ hreg => .inl hreg⟩

theorem Stems.trans (h : Stems s s' aor ip) (h' : Stems s' s'' aor ip) : Stems s s'' aor ip := by
  refine ⟨h'.keyed, fun key reg hreg => ?_⟩
  rcases h'.fresh key reg hreg with hold | hnew
  · exact h.fresh key reg hold
  · exact .inr hnew

/-- A removal brings nothing. -/
theorem Stems.of_subset (h : Keyed s) (hsub : ∀ key reg, s'.regs.lookup key = some reg → s.regs.lookup key = some reg) :
    Stems s s' aor ip :=
  ⟨fun key reg hreg => h key reg (hsub key reg hreg), fun key reg hreg => .inl (hsub key reg hreg)⟩

theorem register_stems (h : Keyed s) (reg : Registration) :
    Stems s (register I s reg).2 reg.aor reg.receivedIp := by
  have hstored (stored : Registration) (haor : stored.aor = reg.aor) (hip : stored.receivedIp = reg.receivedIp)
      (rest : Table RegKey Registration) (tombs : Table RegKey Tombstone)
      (hrest : ∀ key r, rest.lookup key = some r → s.regs.lookup key = some r) :
      Stems s ⟨rest.insert reg.key stored, tombs⟩ reg.aor reg.receivedIp := by
    constructor
    · intro key r hr
      rw [lookup_insert_eq] at hr
      split at hr
      next heq =>
        cases hr
        rw [heq]
        exact haor
      next => exact h key r (hrest key r hr)
    · intro key r hr
      rw [lookup_insert_eq] at hr
      split at hr
      next heq =>
        cases hr
        exact .inr ⟨by rw [heq]; rfl, hip⟩
      next => exact .inl (hrest key r hr)
  rw [register]
  split
  next existing hexisting =>
    split
    next => exact .refl h
    next =>
      have haor : existing.aor = reg.aor := h reg.key existing hexisting
      exact hstored (existing.refreshFrom reg) haor rfl s.regs s.tombstones fun _ _ hr => hr
  next =>
    refine hstored reg rfl rfl (bounded I reg.aor s.regs) s.tombstones fun key r hr => ?_
    rcases bounded_lookup I reg.aor s.regs key with hsame | hnone
    · rw [← hsame, hr]
    · rw [hnone] at hr
      cases hr

theorem erase_subset {key key' : RegKey} {reg : Registration} (h : (s.regs.erase key').lookup key = some reg) :
    s.regs.lookup key = some reg := lookup_of_lookup_erase h

theorem applyContact_stems (p : Progress × InMemoryRegistrar) (h : Keyed p.2) (c : ContactBinding) :
    Stems p.2 (applyContact I V policy now req p c).2 req.aor (showIp (NetAddr.ip req.source)) := by
  have hcases := @applyContact_cases I V policy now req p c
  rcases hcases with ⟨hst, -⟩ | ⟨hst, -⟩ | ⟨hst, -⟩
  · rw [hst]
    exact .refl h
  · rw [hst]
    exact .of_subset h fun key reg hreg => erase_subset hreg
  · rw [hst]
    exact register_stems h (wanted V now req c (granted policy req c))

theorem contacts_stem (contacts : List ContactBinding) (p : Progress × InMemoryRegistrar) (h : Keyed p.2) :
    Stems p.2 (contacts.foldl (applyContact I V policy now req) p).2 req.aor (showIp (NetAddr.ip req.source)) := by
  induction contacts generalizing p with
  | nil => exact .refl h
  | cons c contacts ih =>
      have hfirst := @applyContact_stems I V policy now req p h c
      exact hfirst.trans (ih _ hfirst.keyed)

theorem process_stems (h : Keyed s) :
    Stems s (process I V policy s now req).2 req.aor (showIp (NetAddr.ip req.source)) := by
  rcases process_cases I V policy now req s with ⟨hst, -⟩ | ⟨hst, -⟩ | ⟨hst, -⟩
  · rw [hst]
    exact .refl h
  · rw [hst]
    refine .of_subset h fun key reg hreg => ?_
    rw [unregisterAll, lookup_sweep] at hreg
    obtain ⟨r, hr, hkept⟩ := Option.bind_eq_some_iff.mp hreg
    split at hkept
    next => cases hkept
    next =>
      cases hkept
      exact hr
  · rw [hst]
    exact contacts_stem req.contacts (⟨[], [], none⟩, s) h

theorem unregisterBinding_subset {key key' : RegKey} {dialog : Option Dialog} {reg : Registration}
    (h : (unregisterBinding s now key'.1 key'.2 dialog).2.regs.lookup key = some reg) :
    s.regs.lookup key = some reg := by
  rw [unregisterBinding] at h
  split at h
  next => exact h
  next =>
    split at h
    next => exact h
    next => exact erase_subset h

theorem closeConnection_subset {peer : SocketAddr} {key : RegKey} {reg : Registration}
    (h : (closeConnection s now peer).regs.lookup key = some reg) : s.regs.lookup key = some reg := by
  rw [closeConnection] at h
  generalize s.regs.entries.filter _ = gone at h
  induction gone generalizing s with
  | nil => exact h
  | cons e gone ih => exact @unregisterBinding_subset now s key (e.2.aor, e.2.bindingKey) none reg (ih h)

theorem cleanupExpired_subset {key : RegKey} {reg : Registration}
    (h : (cleanupExpired I s now).2.regs.lookup key = some reg) : s.regs.lookup key = some reg :=
  lookup_of_lookup_retain h

end Bindings

section Runs

variable {G : Gate} {s : Tracked} {now : Nat} {draw : Draw} {req : Request} {source : SocketAddr}

/-- Every binding has a proof of its user, from the IP that it was received from. -/
structure Proved (s : Tracked) : Prop where
  auth : s.sbc.auth.isSome = true
  keyed : Keyed s.sbc.registrar
  proof : ∀ key reg, s.sbc.registrar.regs.lookup key = some reg → ∃ proof, s.origins key = some proof ∧
    reg.receivedIp = showIp (NetAddr.ip proof.source) ∧ (uriUser reg.aor).getD [] = proof.user

/-- Fewer bindings are proved as well. -/
theorem Proved.fewer (h : Proved s) {sbc : Sbc} (hauth : sbc.auth.isSome = true)
    (hsub : ∀ key reg, sbc.registrar.regs.lookup key = some reg → s.sbc.registrar.regs.lookup key = some reg) :
    Proved ⟨sbc, s.origins⟩ :=
  ⟨hauth, fun key reg hreg => h.keyed key reg (hsub key reg hreg), fun key reg hreg => h.proof key reg (hsub key reg hreg)⟩

/-- Without an answer of its own, authentication has verified the user. -/
theorem authenticateRegister_ok (hdigest : G.enableDigestAuth = true) {sbc sbc' : Sbc} (hauth : sbc.auth.isSome = true)
    {user : Option (List Char)} (h : authenticateRegister G sbc now draw req source = (.ok user, sbc')) :
    ∃ name, user = some name ∧ proofOf G sbc now req source = some ⟨source, name⟩ ∧
      sbc'.auth.isSome = true ∧ sbc'.registrar = sbc.registrar := by
  obtain ⟨a, ha⟩ := Option.isSome_iff_exists.mp hauth
  simp only [authenticateRegister, hdigest, if_true, ha] at h
  split at h
  next => simp at h
  next authValue hvalue =>
    split at h
    next name a' hverify =>
      cases h
      refine ⟨name, rfl, ?_, rfl, rfl⟩
      simp only [proofOf, ha, hvalue, hverify]
    next => simp at h

theorem authenticateRegister_error (hdigest : G.enableDigestAuth = true) {sbc sbc' : Sbc}
    (hauth : sbc.auth.isSome = true) {reply : RegisterReply}
    (h : authenticateRegister G sbc now draw req source = (.error reply, sbc')) :
    sbc'.auth.isSome = true ∧ sbc'.registrar = sbc.registrar := by
  obtain ⟨a, ha⟩ := Option.isSome_iff_exists.mp hauth
  simp only [authenticateRegister, hdigest, if_true, ha] at h
  split at h
  next =>
    cases h
    exact ⟨rfl, rfl⟩
  next =>
    split at h
    next => cases h
    next failure a' hverify =>
      cases h
      simp only [rejectRegisterAuth]
      split <;> exact ⟨rfl, rfl⟩

theorem refuseAor_none (henforce : G.identityPolicy.enforceRegisterAor = true) {sbc : Sbc} {user aor : List Char}
    (h : refuseAor G sbc (some user) aor = none) : (uriUser aor).getD [] = user := by
  simp only [refuseAor, authorizeAor] at h
  by_contra hne
  simp [hne, enforced, henforce] at h

/-- What a REGISTER changes bears the user that it was verified for. -/
theorem handleRegister_spec (hdigest : G.enableDigestAuth = true)
    (henforce : G.identityPolicy.enforceRegisterAor = true) {sbc : Sbc} (hauth : sbc.auth.isSome = true)
    (hkeyed : Keyed sbc.registrar) (transport : Transport) (replyTx : Option Nat) :
    (handleRegister G sbc now draw req source transport replyTx).2.auth.isSome = true ∧
      ((handleRegister G sbc now draw req source transport replyTx).2.registrar = sbc.registrar ∨
        ∃ aor proof, proofOf G sbc now req source = some proof ∧ proof.source = source ∧
          (uriUser aor).getD [] = proof.user ∧
          Stems sbc.registrar (handleRegister G sbc now draw req source transport replyTx).2.registrar aor
            (showIp (NetAddr.ip source))) := by
  rw [handleRegister]
  split
  next reply sbc' hresult =>
    obtain ⟨hauth', hsame⟩ := authenticateRegister_error hdigest hauth hresult
    exact ⟨hauth', .inl hsame⟩
  next user sbc' hresult =>
    obtain ⟨name, rfl, hproof, hauth', hsame⟩ := authenticateRegister_ok hdigest hauth hresult
    split
    next => exact ⟨hauth', .inl hsame⟩
    next aorRaw _ =>
      dsimp only
      split
      next => exact ⟨hauth', .inl hsame⟩
      next hallowed =>
        have huser := refuseAor_none henforce hallowed
        split
        next => exact ⟨hauth', .inl hsame⟩
        next =>
          split
          next => exact ⟨hauth', .inl hsame⟩
          next callId _ =>
            refine ⟨hauth', .inr ⟨canonicalAor aorRaw, ⟨source, name⟩, hproof, rfl, huser, ?_⟩⟩
            dsimp only
            rw [hsame]
            exact process_stems hkeyed

theorem Proved.register (hdigest : G.enableDigestAuth = true) (henforce : G.identityPolicy.enforceRegisterAor = true)
    (h : Proved s) (transport : Transport) (replyTx : Option Nat) :
    Proved (step G s (now, .register draw req source transport replyTx)) := by
  obtain ⟨hauth, hregistrar⟩ :=
    @handleRegister_spec G now draw req source hdigest henforce s.sbc h.auth h.keyed transport replyTx
  rcases hregistrar with hsame | ⟨aor, proof, hproof, hsource, huser, hstems⟩
  · have horigins : retrace s.sbc.registrar s.sbc.registrar (proofOf G s.sbc now req source) s.origins = s.origins := by
      funext key
      exact if_pos rfl
    simp only [step, next, hsame, horigins]
    exact h.fewer hauth fun key reg hreg => hsame ▸ hreg
  · refine ⟨hauth, hstems.keyed, fun key reg hreg => ?_⟩
    simp only [step, next, retrace] at hreg ⊢
    split
    next hunchanged => exact h.proof key reg (hunchanged ▸ hreg)
    next hchanged =>
      rcases hstems.fresh key reg hreg with hold | ⟨haor, hip⟩
      · exact absurd (hreg.trans hold.symm) hchanged
      · refine ⟨proof, hproof, by rw [hip, hsource], ?_⟩
        rw [hstems.keyed key reg hreg, haor, huser]

theorem proveCaller_registrar (sbc : Sbc) (user : List Char) :
    (proveCaller G sbc now req source user).2.registrar = sbc.registrar ∧
      (sbc.auth.isSome = true → (proveCaller G sbc now req source user).2.auth.isSome = true) := by
  rw [proveCaller]
  split
  next => exact ⟨rfl, id⟩
  next =>
    split
    next => exact ⟨rfl, id⟩
    next => exact ⟨rfl, fun _ => rfl⟩

/-- To classify a caller touches no binding. -/
theorem classifyCaller_registrar (sbc : Sbc) (trunkIps : List (List Char)) (isLocalhost isTrunkIp : Bool)
    (fromUser : Option (List Char)) :
    (classifyCaller G sbc now trunkIps req source isLocalhost isTrunkIp fromUser).2.registrar = sbc.registrar ∧
      (sbc.auth.isSome = true →
        (classifyCaller G sbc now trunkIps req source isLocalhost isTrunkIp fromUser).2.auth.isSome = true) := by
  rw [classifyCaller]
  split
  · exact ⟨rfl, id⟩
  · dsimp only
    split
    · exact ⟨rfl, id⟩
    · split
      · split
        · split
          · exact ⟨rfl, id⟩
          · exact ⟨rfl, id⟩
        · exact ⟨rfl, id⟩
      · split
        · split
          · exact proveCaller_registrar sbc _
          · exact ⟨rfl, id⟩
        · exact ⟨rfl, id⟩

theorem Proved.invite (h : Proved s) (trunkIps : List (List Char)) :
    Proved (step G s (now, .invite draw trunkIps req source)) := by
  have hspec := @classifyCaller_registrar G now req source s.sbc trunkIps
    (decide (showIp (NetAddr.ip source) = "127.0.0.1".toList ∨ showIp (NetAddr.ip source) = "::1".toList))
    (decide (showIp (NetAddr.ip source) ∈ trunkIps)) ((req.header "From").bind G.fromUser)
  obtain ⟨hregistrar, hauth⟩ := hspec
  have hauth := hauth h.auth
  simp only [step, next, identifyCaller]
  split
  next caller sbc hresult =>
    rw [hresult] at hregistrar hauth
    exact h.fewer hauth fun key reg hreg => hregistrar ▸ hreg
  next verdict sbc hresult =>
    rw [hresult] at hregistrar hauth
    obtain ⟨a, ha⟩ := Option.isSome_iff_exists.mp hauth
    cases verdict with
    | challenge stale =>
        dsimp only [answerIdentityVerdict]
        rw [ha]
        exact h.fewer rfl fun key reg hreg => hregistrar ▸ hreg
    | forbidden strike why => exact h.fewer hauth fun key reg hreg => hregistrar ▸ hreg
    | badRequest => exact h.fewer hauth fun key reg hreg => hregistrar ▸ hreg

theorem Proved.step (hdigest : G.enableDigestAuth = true) (henforce : G.identityPolicy.enforceRegisterAor = true)
    (h : Proved s) (e : Nat × Event) : Proved (step G s e) := by
  obtain ⟨now, event⟩ := e
  cases event with
  | register draw req source transport replyTx => exact h.register hdigest henforce transport replyTx
  | invite draw trunkIps req source => exact h.invite trunkIps
  | cleanup => exact h.fewer (by simpa [next] using h.auth) fun key reg hreg => cleanupExpired_subset (I := G.order) hreg
  | connectionClosed peer => exact h.fewer h.auth fun key reg hreg => closeConnection_subset hreg
  | setUsers users => exact h.fewer (by simpa [next] using h.auth) fun key reg hreg => hreg

theorem proved_start (a : DigestAuthenticator) : Proved (.start a) := by
  refine ⟨rfl, fun key reg hreg => ?_, fun key reg hreg => ?_⟩
  · cases hreg
  · cases hreg

theorem proved_run (hdigest : G.enableDigestAuth = true) (henforce : G.identityPolicy.enforceRegisterAor = true)
    (h : Proved s) (events : List (Nat × Event)) : Proved (events.foldl (step G) s) := by
  induction events generalizing s with
  | nil => exact h
  | cons e events ih => exact ih (h.step hdigest henforce e)

theorem verdictOf_user {user u : List Char} {r : Except AuthFailure (List Char)}
    (h : verdictOf user r = .ok (.user u)) : r = .ok u := by
  unfold verdictOf at h
  split at h
  next proved =>
    split at h
    next => cases h; rfl
    next => cases h
  all_goals cases h

theorem mem_here {sbc : Sbc} {u ip : List Char} (h : u ∈ (registeredUsers G sbc now ip).1) :
    ∃ key reg, sbc.registrar.regs.lookup key = some reg ∧ toSecs now < reg.expiresAt ∧ reg.receivedIp = ip ∧
      uriUser reg.aor = some u := by
  obtain ⟨reg, hreg, huser⟩ := List.mem_filterMap.mp h
  obtain ⟨hlive, hip⟩ := List.mem_filter.mp hreg
  obtain ⟨hmem, hexpires⟩ := List.mem_filter.mp hlive
  obtain ⟨e, he, rfl⟩ := List.mem_map.mp hmem
  refine ⟨e.1, e.2, ?_, of_decide_eq_true hexpires, of_decide_eq_true hip, huser⟩
  exact AList.mem_lookup_iff.mpr ((G.order.perm _).mem_iff.mp he)

theorem classifyTrunk_ne_user (sbc : Sbc) (sourceIp : List Char) (anywhere : List (List Char))
    (fromUser : Option (List Char)) (u : List Char) :
    classifyTrunk G sbc req sourceIp anywhere fromUser ≠ .ok (.user u) := by
  unfold classifyTrunk
  split
  · simp
  · dsimp only
    split <;> simp

theorem classifyUnknown_ne_user (trunkIps anywhere : List (List Char)) (u : List Char) :
    classifyUnknown req source trunkIps anywhere ≠ .ok (.user u) := by
  rw [classifyUnknown]
  split <;> simp

/-- What shows that a caller is the user: its credentials, or a binding from its address. -/
inductive Shown (G : Gate) (sbc : Sbc) (now : Nat) (req : Request) (source : SocketAddr) (u : List Char) : Prop
  | digest (a : DigestAuthenticator) (value : List Char) (ha : sbc.auth = some a)
      (hvalue : req.headerValue "proxy-authorization" = some value)
      (hok : (verifyWith G.md5 a now value "INVITE".toList (some (G.hash (invitePrint source value)))).1 = .ok u)
  | binding (key : RegKey) (reg : Registration) (hreg : sbc.registrar.regs.lookup key = some reg)
      (hlive : toSecs now < reg.expiresAt) (hip : reg.receivedIp = showIp (NetAddr.ip source))
      (huser : uriUser reg.aor = some u)

theorem proveCaller_user (hdigest : G.enableDigestAuth = true) {sbc : Sbc} (hauth : sbc.auth.isSome = true)
    {user u : List Char} (h : (proveCaller G sbc now req source user).1 = .ok (.user u)) :
    Shown G sbc now req source u := by
  obtain ⟨a, ha⟩ := Option.isSome_iff_exists.mp hauth
  simp only [proveCaller, hdigest, if_true, ha] at h
  split at h
  next => cases h
  next value hvalue => exact .digest a value ha hvalue (verdictOf_user h)

/-- A local caller has proved itself now, or has a binding from its address. -/
theorem classifyCaller_user (hdigest : G.enableDigestAuth = true) {sbc : Sbc} (hauth : sbc.auth.isSome = true)
    {trunkIps : List (List Char)} {isLocalhost isTrunkIp : Bool} {fromUser : Option (List Char)} {u : List Char}
    (h : (classifyCaller G sbc now trunkIps req source isLocalhost isTrunkIp fromUser).1 = .ok (.user u)) :
    Shown G sbc now req source u := by
  rw [classifyCaller] at h
  split at h
  · cases h
  · dsimp only at h
    split at h
    · exact absurd h (classifyTrunk_ne_user sbc _ _ fromUser u)
    · split at h
      · split at h
        next name =>
          split at h
          next hhere =>
            cases h
            obtain ⟨key, reg, hreg, hlive, hip, huser⟩ := mem_here hhere
            exact .binding key reg hreg hlive hip huser
          next => cases h
        next => cases h
      · split at h
        next =>
          split at h
          · exact proveCaller_user hdigest hauth h
          · exact absurd h (classifyUnknown_ne_user trunkIps _ u)
        next => exact absurd h (classifyUnknown_ne_user trunkIps _ u)

/-- A call is attributed to a user only when its INVITE was verified for that user
or an unexpired binding of the caller's IP was: the REGISTER that last changed it
came from that IP and was itself verified for the user. -/
theorem attributed_to_prover (hdigest : G.enableDigestAuth = true)
    (henforce : G.identityPolicy.enforceRegisterAor = true) (a : DigestAuthenticator) (events : List (Nat × Event))
    {trunkIps : List (List Char)} {isLocalhost isTrunkIp : Bool} {fromUser : Option (List Char)} {u : List Char}
    (h : (classifyCaller G (events.foldl (step G) (.start a)).sbc now trunkIps req source isLocalhost isTrunkIp
      fromUser).1 = .ok (.user u)) :
    (∃ a' value, (events.foldl (step G) (.start a)).sbc.auth = some a' ∧
      req.headerValue "proxy-authorization" = some value ∧
      (verifyWith G.md5 a' now value "INVITE".toList (some (G.hash (invitePrint source value)))).1 = .ok u) ∨
    ∃ key reg proof, (events.foldl (step G) (.start a)).sbc.registrar.regs.lookup key = some reg ∧
      toSecs now < reg.expiresAt ∧ (events.foldl (step G) (.start a)).origins key = some proof ∧
      NetAddr.ip proof.source = NetAddr.ip source ∧ proof.user = u := by
  have hproved := proved_run hdigest henforce (proved_start a) events
  cases classifyCaller_user hdigest hproved.auth h with
  | digest a' value ha hvalue hok => exact .inl ⟨a', value, ha, hvalue, hok⟩
  | binding key reg hreg hlive hip huser =>
      obtain ⟨proof, horigin, hproofIp, hproofUser⟩ := hproved.proof key reg hreg
      refine .inr ⟨key, reg, proof, hreg, hlive, horigin, ?_, ?_⟩
      · exact showIp_inj (hproofIp.symm.trans hip)
      · rw [← hproofUser, huser]
        rfl

end Runs

/-- One user, a hash that is always the same, and no reader of the library that matters here. -/
def plainGate : Gate where
  order := .newestFirst
  uppering := fun c => [c]
  md5 := anyHash
  hash := fun _ => 0
  cseqNumber := fun _ => some 1
  fromUser := fun _ => some ['a']
  enableDigestAuth := true
  registerPolicy := .fromConfig 60 3600 3600
  identityPolicy := ⟨true, [], false⟩
  identity := none

def firstDraw : Draw := ⟨0, 0, Vector.replicate 16 0⟩

def phone : SocketAddr := ofOctets 192 0 2 1 5060

def registration (authorized : Bool) : Request where
  uri := "sip:h".toList
  headers :=
    (if authorized then [("Authorization".toList, DigestReplay.authorization ", qop=auth, nc=1".toList)] else []) ++
      [("To".toList, "sip:a@h".toList), ("Contact".toList, "sip:a@h".toList), ("Call-ID".toList, ['1'])]

/-- A phone is challenged, registers, and calls. -/
def registered : List (Nat × Event) :=
  [(0, .register firstDraw (registration false) phone .udp none),
    (0, .register firstDraw (registration true) phone .udp none)]

def authenticator : DigestAuthenticator := ⟨['r'], ∅, 300, DigestReplay.oneUser⟩

theorem registered_caller :
    (classifyCaller plainGate (registered.foldl (step plainGate) (.start authenticator)).sbc 0 [] ⟨[], []⟩ phone false
      false (some ['a'])).1 = .ok (.user ['a']) := by
  decide +kernel

theorem registered_caller_proved :
    (∃ a' value, (registered.foldl (step plainGate) (.start authenticator)).sbc.auth = some a' ∧
      (⟨[], []⟩ : Request).headerValue "proxy-authorization" = some value ∧
      (verifyWith anyHash a' 0 value "INVITE".toList (some 0)).1 = .ok ['a']) ∨
    ∃ key reg proof, (registered.foldl (step plainGate) (.start authenticator)).sbc.registrar.regs.lookup key = some reg ∧
      toSecs 0 < reg.expiresAt ∧ (registered.foldl (step plainGate) (.start authenticator)).origins key = some proof ∧
      NetAddr.ip proof.source = NetAddr.ip phone ∧ proof.user = ['a'] :=
  attributed_to_prover rfl rfl authenticator registered registered_caller

end NixiSbc.CallerIdentity

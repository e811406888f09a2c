import NixiSbc.RegistrarCaps

namespace NixiSbc.RegisterOrder

open Stun TextFields KeyedTable Eviction Registrar RegistrarCaps StateRuns

/-- The requests of one dialog of a client about one contact: a request for each
CSeq, that names the contact alone or is the wildcard, and is not refused for its
interval. -/
structure Client (policy : RegisterPolicy) where
  aor : List Char
  callId : List Char
  key : List Char
  request : UInt32 → RegisterRequest
  aor_eq : ∀ n, (request n).aor = aor
  callId_eq : ∀ n, (request n).callId = callId
  cseq_eq : ∀ n, (request n).cseq = n
  shape : ∀ n,
    (request n).wildcard = true ∧ (request n).contacts = [] ∧ (request n).expiresHeader = some 0 ∨
      (request n).wildcard = false ∧ ∃ c, (request n).contacts = [c] ∧ c.key = key ∧
        tooBrief policy (request n) c = false

section

variable {policy : RegisterPolicy} (client : Client policy)

def Client.regKey : RegKey := (client.aor, client.key)

/-- The request asks for the binding to be removed. -/
def Client.drops (n : UInt32) : Bool :=
  (client.request n).contacts.all fun c => granted policy (client.request n) c = 0

/-- The binding is what the request asked for. -/
def Client.Granted (n : UInt32) (r : Registration) : Prop :=
  r.callId = client.callId ∧ r.cseq = n ∧
    ∃ c ∈ (client.request n).contacts, r.contact = c.uri ∧ r.expires = granted policy (client.request n) c

end

inductive Message
  | own (cseq : UInt32)
  | other (req : RegisterRequest)

/-- The registrar, with what was delivered to it of the dialog, which request of
it removed the binding last, and how many bindings were removed in all. -/
structure Delivery where
  registrar : InMemoryRegistrar
  delivered : List UInt32
  removedBy : Option UInt32
  removals : Nat

def Delivery.start : Delivery := ⟨.new, [], none, 0⟩

def removedCount : RegisterResult → Nat
  | .ok _ _ removed _ => removed.length
  | _ => 0

section

variable (I : Iteration RegKey Registration) (V : Uppering) {policy : RegisterPolicy}
  (client : Client policy)

def step (s : Delivery) : Nat × Message → Delivery
  | (now, .own n) =>
      let r := process I V policy s.registrar now (client.request n)
      ⟨r.2, n :: s.delivered, if removedCount r.1 = 0 then s.removedBy else some n,
        s.removals + removedCount r.1⟩
  | (now, .other req) =>
      let r := process I V policy s.registrar now req
      { s with registrar := r.2, removals := s.removals + removedCount r.1 }

def Client.held (s : Delivery) : Option Registration := s.registrar.regs.lookup client.regKey

/-- The binding is the one that the newest request delivered asked for, and there
is none if that one asked for none. -/
def Right (s : Delivery) : Prop :=
  ∀ n ∈ s.delivered, (∀ k ∈ s.delivered, k ≤ n) →
    if client.drops n then client.held s = none else ∃ r, client.held s = some r ∧ client.Granted n r

/-- The messages come within the lifetime of a tombstone, fewer bindings are removed
than there may be tombstones, and the messages of others are for other addresses
of record. -/
def InScope (start : Nat) (s : Delivery) (e : Nat × Message) : Prop :=
  start ≤ e.1 ∧ e.1 - start < tombstoneTtlMs ∧ (step I V client s e).removals < maxTombstones ∧
    match e.2 with
    | .own _ => True
    | .other req => req.aor ≠ client.aor

/-- A message of another address of record that comes while the binding is held
finds room for all its contacts. -/
def HasRoom (s : Delivery) : Nat × Message → Prop
  | (_, .own _) => True
  | (_, .other req) => (client.held s).isSome = true →
      countKeys (ofAor req.aor) s.registrar.regs + req.contacts.length ≤ maxBindingsPerAor ∧
        size s.registrar.regs + req.contacts.length ≤ maxBindingsTotal

/-- No REGISTER comes while there is no binding that is newer than the request that
removed the binding and older than an un-REGISTER delivered before it. -/
def NotOvertaken (s : Delivery) : Nat × Message → Prop
  | (_, .own n) => client.drops n = false → client.held s = none → (∀ r ∈ s.removedBy, r < n) →
      ∀ k ∈ s.delivered, client.drops k = true → k < n
  | (_, .other _) => True

end

section Tombstones

variable {k : RegKey} {tombs : Table RegKey Tombstone}

theorem entomb_eq (hsize : size tombs < maxTombstones) (now : Nat) (key : RegKey) (callId : List Char)
    (cseq : UInt32) :
    entomb now key (some (callId, cseq)) tombs = tombs.insert key ⟨callId, cseq, now⟩ :=
  if_neg (not_le.mpr hsize)

/-- Removals of other bindings, few enough, leave the tombstone of this one. -/
theorem entombAll_other {gone : List (Sigma fun _ : RegKey => Registration)} (now : Nat)
    (callId : List Char) (cseq : UInt32) (hne : ∀ e ∈ gone, k ≠ e.1)
    (hfew : size tombs + gone.length ≤ maxTombstones) :
    (gone.foldl (fun tombs e => entomb now e.1 (some (callId, cseq)) tombs) tombs).lookup k =
      tombs.lookup k ∧
    size (gone.foldl (fun tombs e => entomb now e.1 (some (callId, cseq)) tombs) tombs) ≤
      size tombs + gone.length := by
  induction gone generalizing tombs with
  | nil => exact ⟨rfl, le_rfl⟩
  | cons e gone ih =>
      rw [List.length_cons] at hfew
      have hroom : size tombs < maxTombstones := by omega
      have hins := entomb_eq hroom now e.1 callId cseq
      have hsize := size_insert_le tombs e.1 ⟨callId, cseq, now⟩
      have hrest : ∀ e' ∈ gone, k ≠ e'.1 := fun e' he' => hne e' (List.mem_cons_of_mem _ he')
      obtain ⟨hlookup, hle⟩ := @ih (tombs.insert e.1 ⟨callId, cseq, now⟩) hrest (by omega)
      rw [List.foldl_cons, hins, hlookup, AList.lookup_insert_ne (hne e List.mem_cons_self),
        List.length_cons]
      exact ⟨rfl, by omega⟩

end Tombstones

section Contacts

variable {I : Iteration RegKey Registration} {V : Uppering} {policy : RegisterPolicy} {now : Nat}
  {req : RegisterRequest}

/-- All that one contact of a request does: nothing, a removal, or a registration. -/
theorem applyContact_cases (p : Progress × InMemoryRegistrar) (c : ContactBinding) :
    ((applyContact I V policy now req p c).2 = p.2 ∧
        (applyContact I V policy now req p c).1.removed = p.1.removed) ∨
      ((applyContact I V policy now req p c).2 =
          ⟨p.2.regs.erase (req.aor, c.key),
            entomb now (req.aor, c.key) (some (req.callId, req.cseq)) p.2.tombstones⟩ ∧
        (applyContact I V policy now req p c).1.removed.length = p.1.removed.length + 1) ∨
      ((applyContact I V policy now req p c).2 =
          (register I p.2 (wanted V now req c (granted policy req c))).2 ∧
        (applyContact I V policy now req p c).1.removed = p.1.removed) := by
  rw [applyContact]
  split
  · exact .inl ⟨rfl, rfl⟩
  · split
    · rw [unregisterBinding]
      split
      next => exact .inl ⟨rfl, List.append_nil _⟩
      next =>
        split
        next => exact .inl ⟨rfl, List.append_nil _⟩
        next => exact .inr (.inl ⟨rfl, List.length_append⟩)
    · exact .inr (.inr ⟨rfl, rfl⟩)

theorem register_tombstones (s : InMemoryRegistrar) (reg : Registration) :
    (register I s reg).2.tombstones = s.tombstones := by
  rw [register]
  split
  next =>
    split
    next => rfl
    next => rfl
  next => rfl

section

variable (I V policy now req)

theorem removed_le_applyContact (p : Progress × InMemoryRegistrar) (c : ContactBinding) :
    p.1.removed.length ≤ (applyContact I V policy now req p c).1.removed.length := by
  rcases applyContact_cases p c with ⟨-, hrem⟩ | ⟨-, hrem⟩ | ⟨-, hrem⟩
  · rw [hrem]
  · rw [hrem]
    exact Nat.le_succ _
  · rw [hrem]

theorem removed_le_fold (contacts : List ContactBinding) (p : Progress × InMemoryRegistrar) :
    p.1.removed.length ≤
      (contacts.foldl (applyContact I V policy now req) p).1.removed.length := by
  induction contacts generalizing p with
  | nil => exact le_rfl
  | cons c contacts ih =>
      exact (removed_le_applyContact I V policy now req p c).trans
        (ih (applyContact I V policy now req p c))

end

/-- Room for so many more bindings of the address of record, unless the binding
that matters is not there. -/
def RoomFor (k : RegKey) (aor : List Char) (n : Nat) (m : Table RegKey Registration) : Prop :=
  m.lookup k = none ∨ countKeys (ofAor aor) m + n ≤ maxBindingsPerAor ∧ size m + n ≤ maxBindingsTotal

theorem RoomFor.less {k : RegKey} {aor : List Char} {n : Nat} {m m' : Table RegKey Registration}
    (h : RoomFor k aor (n + 1) m) (hk : m'.lookup k = m.lookup k)
    (hcount : countKeys (ofAor aor) m' ≤ countKeys (ofAor aor) m + 1)
    (hsize : size m' ≤ size m + 1) : RoomFor k aor n m' := by
  rcases h with hnone | ⟨haor, htotal⟩
  · exact .inl (hk.trans hnone)
  · exact .inr ⟨by omega, by omega⟩

/-- One contact of another address of record leaves a binding and its tombstone. -/
theorem applyContact_other {k : RegKey} (hk : k.1 ≠ req.aor) {n : Nat} (c : ContactBinding)
    (p : Progress × InMemoryRegistrar) (hroom : RoomFor k req.aor (n + 1) p.2.regs)
    (hsize : size p.2.tombstones < maxTombstones) :
    (applyContact I V policy now req p c).2.regs.lookup k = p.2.regs.lookup k ∧
      (applyContact I V policy now req p c).2.tombstones.lookup k = p.2.tombstones.lookup k ∧
      size (applyContact I V policy now req p c).2.tombstones + p.1.removed.length ≤
        size p.2.tombstones + (applyContact I V policy now req p c).1.removed.length ∧
      RoomFor k req.aor n (applyContact I V policy now req p c).2.regs := by
  have hne : k ≠ (req.aor, c.key) := fun heq => hk (heq ▸ rfl)
  rcases applyContact_cases p c with ⟨hst, hrem⟩ | ⟨hst, hrem⟩ | ⟨hst, hrem⟩
  · rw [hst, hrem]
    exact ⟨rfl, rfl, le_rfl, hroom.less rfl (Nat.le_succ _) (Nat.le_succ _)⟩
  · have hregs : (p.2.regs.erase (req.aor, c.key)).lookup k = p.2.regs.lookup k :=
      AList.lookup_erase_ne hne
    have htombs := size_insert_le p.2.tombstones (req.aor, c.key) ⟨req.callId, req.cseq, now⟩
    rw [hst, hrem, entomb_eq hsize]
    refine ⟨hregs, AList.lookup_insert_ne hne, by dsimp only; omega, hroom.less hregs ?_ ?_⟩
    · exact (countKeys_erase_le _ _ _).trans (Nat.le_succ _)
    · exact (size_erase_le _ _).trans (Nat.le_succ _)
  · have hregs : (register I p.2 (wanted V now req c (granted policy req c))).2.regs.lookup k =
        p.2.regs.lookup k := by
      apply register_other hk
      exact hroom.imp id fun ⟨haor, htotal⟩ =>
        ⟨lt_of_lt_of_le (Nat.lt_add_of_pos_right n.succ_pos) haor,
          lt_of_lt_of_le (Nat.lt_add_of_pos_right n.succ_pos) htotal⟩
    have hadds := register_adds_one I p.2 (wanted V now req c (granted policy req c)) (ofAor req.aor)
    rw [hst, hrem, register_tombstones]
    exact ⟨hregs, rfl, le_rfl, hroom.less hregs hadds.1 hadds.2⟩

/-- The contacts of another address of record leave a binding and its tombstone. -/
theorem fold_other {k : RegKey} (hk : k.1 ≠ req.aor) (contacts : List ContactBinding)
    (p : Progress × InMemoryRegistrar) (hroom : RoomFor k req.aor contacts.length p.2.regs)
    (hfew : size p.2.tombstones +
      (contacts.foldl (applyContact I V policy now req) p).1.removed.length <
        maxTombstones + p.1.removed.length) :
    (contacts.foldl (applyContact I V policy now req) p).2.regs.lookup k = p.2.regs.lookup k ∧
      (contacts.foldl (applyContact I V policy now req) p).2.tombstones.lookup k =
        p.2.tombstones.lookup k ∧
      size (contacts.foldl (applyContact I V policy now req) p).2.tombstones + p.1.removed.length ≤
        size p.2.tombstones +
          (contacts.foldl (applyContact I V policy now req) p).1.removed.length := by
  induction contacts generalizing p with
  | nil => exact ⟨rfl, rfl, le_rfl⟩
  | cons c contacts ih =>
      rw [List.foldl_cons] at hfew ⊢
      have hfirst := removed_le_applyContact I V policy now req p c
      have hrest := removed_le_fold I V policy now req contacts (applyContact I V policy now req p c)
      obtain ⟨hregs, htombs, hsize, hroom'⟩ := applyContact_other (I := I) (V := V) hk c p hroom (by omega)
      obtain ⟨hregs', htombs', hsize'⟩ := ih (applyContact I V policy now req p c) hroom' (by omega)
      exact ⟨hregs'.trans hregs, htombs'.trans htombs, by omega⟩

theorem unregisterAll_other {k : RegKey} {aor callId : List Char} {cseq : UInt32}
    (s : InMemoryRegistrar) (hk : k.1 ≠ aor)
    (hfew : size s.tombstones + (unregisterAll I s now aor (some (callId, cseq))).1.length ≤
      maxTombstones) :
    (unregisterAll I s now aor (some (callId, cseq))).2.regs.lookup k = s.regs.lookup k ∧
      (unregisterAll I s now aor (some (callId, cseq))).2.tombstones.lookup k =
        s.tombstones.lookup k ∧
      size (unregisterAll I s now aor (some (callId, cseq))).2.tombstones ≤
        size s.tombstones + (unregisterAll I s now aor (some (callId, cseq))).1.length := by
  rw [unregisterAll, List.length_map] at *
  have hne : ∀ e ∈ (I.order s.regs).filter
      (fun e => ofAor aor e.1 && wiped (some (callId, cseq)) e.2), k ≠ e.1 := by
    intro e he heq
    obtain ⟨-, hp⟩ := List.mem_filter.mp he
    rw [Bool.and_eq_true] at hp
    exact hk (heq ▸ of_decide_eq_true hp.1)
  obtain ⟨htombs, hsize⟩ := entombAll_other now callId cseq hne hfew
  refine ⟨?_, htombs, hsize⟩
  rw [lookup_sweep]
  cases s.regs.lookup k with
  | none => rfl
  | some r =>
      rw [Option.bind_some, show ofAor aor k = false from decide_eq_false hk, Bool.false_and,
        if_neg Bool.false_ne_true]

/-- The contacts of a request, one after the other. -/
def applyAll (I : Iteration RegKey Registration) (V : Uppering) (policy : RegisterPolicy) (now : Nat)
    (req : RegisterRequest) (s : InMemoryRegistrar) : Progress × InMemoryRegistrar :=
  req.contacts.foldl (applyContact I V policy now req) (⟨[], [], none⟩, s)

/-- All that a request does: nothing, the wildcard, or its contacts. -/
theorem process_cases (I : Iteration RegKey Registration) (V : Uppering) (policy : RegisterPolicy)
    (now : Nat) (req : RegisterRequest) (s : InMemoryRegistrar) :
    ((process I V policy s now req).2 = s ∧ removedCount (process I V policy s now req).1 = 0) ∨
      ((process I V policy s now req).2 =
          (unregisterAll I s now req.aor (some (req.callId, req.cseq))).2 ∧
        removedCount (process I V policy s now req).1 =
          (unregisterAll I s now req.aor (some (req.callId, req.cseq))).1.length) ∨
      ((process I V policy s now req).2 = (applyAll I V policy now req s).2 ∧
        removedCount (process I V policy s now req).1 =
          (applyAll I V policy now req s).1.removed.length) := by
  rw [process]
  split
  · split
    · exact .inl ⟨rfl, rfl⟩
    · split
      · exact .inr (.inl ⟨rfl, rfl⟩)
      · exact .inl ⟨rfl, rfl⟩
  · split
    · exact .inl ⟨rfl, rfl⟩
    · split
      · exact .inl ⟨rfl, rfl⟩
      · split
        · exact .inl ⟨rfl, rfl⟩
        · exact .inr (.inr ⟨rfl, rfl⟩)

/-- A request of another address of record leaves a binding and its tombstone. -/
theorem process_other {k : RegKey} (s : InMemoryRegistrar) (hk : k.1 ≠ req.aor)
    (hroom : RoomFor k req.aor req.contacts.length s.regs)
    (hfew : size s.tombstones + removedCount (process I V policy s now req).1 < maxTombstones) :
    (process I V policy s now req).2.regs.lookup k = s.regs.lookup k ∧
      (process I V policy s now req).2.tombstones.lookup k = s.tombstones.lookup k ∧
      size (process I V policy s now req).2.tombstones ≤
        size s.tombstones + removedCount (process I V policy s now req).1 := by
  rcases process_cases I V policy now req s with ⟨hst, hcount⟩ | ⟨hst, hcount⟩ | ⟨hst, hcount⟩
  · rw [hst, hcount]
    exact ⟨rfl, rfl, le_rfl⟩
  · rw [hcount] at hfew
    rw [hst, hcount]
    exact unregisterAll_other s hk hfew.le
  · rw [hcount] at hfew
    rw [hst, hcount]
    exact fold_other hk req.contacts (⟨[], [], none⟩, s) hroom hfew

end Contacts

section Own

variable {I : Iteration RegKey Registration} {V : Uppering} {policy : RegisterPolicy}
  {client : Client policy} {now : Nat} {n : UInt32} {s : InMemoryRegistrar}

/-- The address of record holds no other binding. -/
def OnlyKey (client : Client policy) (s : InMemoryRegistrar) : Prop :=
  ∀ k r, s.regs.lookup k = some r → k.1 = client.aor → k = client.regKey

/-- What a request of the dialog comes to. -/
inductive Outcome
  | kept
  | removed
  | stored (r : Registration)

/-- The registrar after a request with this outcome. -/
structure Comes (client : Client policy) (now : Nat) (n : UInt32) (s s' : InMemoryRegistrar)
    (removals : Nat) (o : Outcome) : Prop where
  held : s'.regs.lookup client.regKey =
    match o with
    | .kept => s.regs.lookup client.regKey
    | .removed => none
    | .stored r => some r
  tombstone : s'.tombstones.lookup client.regKey =
    match o with
    | .removed => some ⟨client.callId, n, now⟩
    | _ => s.tombstones.lookup client.regKey
  removals_eq : removals = match o with
    | .removed => 1
    | _ => 0
  size_le : size s'.tombstones ≤ size s.tombstones + removals
  only : OnlyKey client s'

theorem Comes.of_eq (h : OnlyKey client s) : Comes client now n s s 0 .kept :=
  ⟨rfl, rfl, rfl, le_rfl, h⟩

/-- The request names the contact, and is not the wildcard. -/
structure Names (client : Client policy) (n : UInt32) (c : ContactBinding) : Prop where
  wildcard : (client.request n).wildcard = false
  contacts : (client.request n).contacts = [c]
  key : c.key = client.key
  brief : tooBrief policy (client.request n) c = false

/-- What such a request does to the registrar, with the number of removals. -/
theorem process_names {c : ContactBinding} (h : Names client n c)
    (I : Iteration RegKey Registration) (V : Uppering) (now : Nat) (s : InMemoryRegistrar) :
    ((process I V policy s now (client.request n)).2,
        removedCount (process I V policy s now (client.request n)).1) =
      if isOutOfOrder s now client.regKey client.callId n then (s, 0)
      else if granted policy (client.request n) c = 0 then
        ((unregisterBinding s now client.aor client.key (some (client.callId, n))).2,
          (unregisterBinding s now client.aor client.key (some (client.callId, n))).1.toList.length)
      else
        ((register I s (wanted V now (client.request n) c (granted policy (client.request n) c))).2, 0) := by
  have hlen : ¬ maxContactsPerRequest < [c].length := by
    rw [List.length_singleton]
    decide
  have hany : [c].any (tooBrief policy (client.request n)) = false := by
    rw [List.any_cons, h.brief]
    rfl
  rw [process, h.wildcard, h.contacts, if_neg Bool.false_ne_true, if_neg (List.cons_ne_nil _ _),
    if_neg hlen, hany, if_neg Bool.false_ne_true]
  simp only [List.foldl_cons, List.foldl_nil, removedCount]
  rw [applyContact, client.aor_eq, client.callId_eq, client.cseq_eq, h.key, Client.regKey]
  split
  · rfl
  · split
    · rfl
    · rfl

theorem wanted_key {c : ContactBinding} (h : Names client n c) (V : Uppering) (now : Nat)
    (expires : UInt32) : (wanted V now (client.request n) c expires).key = client.regKey := by
  change ((client.request n).aor, c.key) = _
  rw [client.aor_eq, h.key]
  rfl

theorem OnlyKey.register (h : OnlyKey client s) {reg : Registration} (hkey : reg.key = client.regKey) :
    OnlyKey client (Registrar.register I s reg).2 := by
  intro k r hr hk
  by_contra hne
  rw [← hkey] at hne
  have hold : s.regs.lookup k = some r := by
    cases hnew : s.regs.lookup reg.key with
    | some existing => rwa [register_present_ne hnew hne] at hr
    | none =>
        rw [register_new_ne hnew hne] at hr
        rcases bounded_lookup I reg.aor s.regs k with hsame | hnone
        · exact hsame.symm.trans hr
        · cases hnone.symm.trans hr
  exact hne (hkey ▸ h k r hold hk)

theorem isOutOfOrder_held {k : RegKey} {r : Registration} (h : s.regs.lookup k = some r) (now : Nat)
    (callId : List Char) (cseq : UInt32) :
    isOutOfOrder s now k callId cseq = notNewer callId cseq r := by
  simp only [isOutOfOrder, h]

theorem notNewer_own {r : Registration} (h : r.callId = client.callId) (n : UInt32) :
    notNewer client.callId n r = decide (n ≤ r.cseq) := by
  rw [notNewer, decide_eq_true h, Bool.true_and]

theorem register_accepted (I : Iteration RegKey Registration) {reg : Registration} {k : RegKey}
    (hk : reg.key = k)
    (h : ∀ existing, s.regs.lookup k = some existing → notNewer reg.callId reg.cseq existing = false) :
    ∃ r, (register I s reg).2.regs.lookup k = some r ∧ r.callId = reg.callId ∧ r.cseq = reg.cseq ∧
      r.contact = reg.contact ∧ r.expires = reg.expires := by
  subst hk
  cases hheld : s.regs.lookup reg.key with
  | some existing =>
      simp only [register, hheld, h existing hheld]
      exact ⟨_, AList.lookup_insert _, rfl, rfl, rfl, rfl⟩
  | none =>
      simp only [register, hheld]
      exact ⟨reg, AList.lookup_insert _, rfl, rfl, rfl, rfl⟩

/-- The stored binding is what the request asked for. -/
theorem register_granted {c : ContactBinding} (h : Names client n c)
    (I : Iteration RegKey Registration) (V : Uppering) (now : Nat) (s : InMemoryRegistrar)
    (horder : isOutOfOrder s now client.regKey client.callId n = false) :
    ∃ r, client.Granted n r ∧
      (register I s (wanted V now (client.request n) c
        (granted policy (client.request n) c))).2.regs.lookup client.regKey = some r := by
  have hcall : (wanted V now (client.request n) c (granted policy (client.request n) c)).callId =
      client.callId := client.callId_eq n
  have hcseq : (wanted V now (client.request n) c (granted policy (client.request n) c)).cseq = n :=
    client.cseq_eq n
  have hmem : c ∈ (client.request n).contacts := by
    rw [h.contacts]
    exact List.mem_singleton_self c
  obtain ⟨r, hr, hid, hseq, hcontact, hexpires⟩ :=
    register_accepted (s := s) I (wanted_key h V now (granted policy (client.request n) c))
      (fun existing hheld => by rw [hcall, hcseq, ← isOutOfOrder_held hheld now]; exact horder)
  exact ⟨r, ⟨hid.trans hcall, hseq.trans hcseq, c, hmem, hcontact, hexpires⟩, hr⟩

theorem comes_stored {c : ContactBinding} (h : Names client n c) (honly : OnlyKey client s)
    (I : Iteration RegKey Registration) (V : Uppering) (now : Nat)
    (horder : isOutOfOrder s now client.regKey client.callId n = false)
    (hexpires : granted policy (client.request n) c ≠ 0) :
    ∃ r, client.Granted n r ∧ Comes client now n s (process I V policy s now (client.request n)).2
      (removedCount (process I V policy s now (client.request n)).1) (.stored r) := by
  have hprocess := process_names h I V now s
  rw [if_neg (by rw [horder]; exact Bool.false_ne_true), if_neg hexpires, Prod.mk.injEq] at hprocess
  obtain ⟨r, hr, hheld⟩ := register_granted h I V now s horder
  refine ⟨r, hr, ?_⟩
  rw [hprocess.1, hprocess.2]
  refine ⟨hheld, ?_, rfl, ?_, honly.register (wanted_key h V now _)⟩
  · rw [register_tombstones]
  · rw [register_tombstones]
    exact le_rfl

/-- A contact of a request that is out of order is left alone. -/
theorem comes_kept {c : ContactBinding} (h : Names client n c) (honly : OnlyKey client s)
    (I : Iteration RegKey Registration) (V : Uppering) (now : Nat)
    (horder : isOutOfOrder s now client.regKey client.callId n = true) :
    Comes client now n s (process I V policy s now (client.request n)).2
      (removedCount (process I V policy s now (client.request n)).1) .kept := by
  have hprocess := process_names h I V now s
  rw [if_pos horder, Prod.mk.injEq] at hprocess
  rw [hprocess.1, hprocess.2]
  exact .of_eq honly

theorem OnlyKey.erase (h : OnlyKey client s) (tombs : Table RegKey Tombstone) :
    OnlyKey client ⟨s.regs.erase client.regKey, tombs⟩ := by
  intro k r hr hk
  by_cases hne : k = client.regKey
  · exact hne
  · exact h k r ((AList.lookup_erase_ne hne).symm.trans hr) hk

/-- What an un-REGISTER comes to. -/
def dropOutcome (n : UInt32) : Option Registration → Outcome
  | none => .kept
  | some r => if n ≤ r.cseq then .kept else .removed

theorem comes_removed (honly : OnlyKey client s) :
    Comes client now n s ⟨s.regs.erase client.regKey,
      s.tombstones.insert client.regKey ⟨client.callId, n, now⟩⟩ 1 .removed :=
  ⟨AList.lookup_erase _ _, AList.lookup_insert _, rfl, size_insert_le _ _ _, honly.erase _⟩

theorem comes_dropped_contact {c : ContactBinding} (h : Names client n c) (honly : OnlyKey client s)
    (hsize : size s.tombstones < maxTombstones)
    (howner : ∀ r, s.regs.lookup client.regKey = some r → r.callId = client.callId)
    (I : Iteration RegKey Registration) (V : Uppering) (now : Nat)
    (hexpires : granted policy (client.request n) c = 0) :
    Comes client now n s (process I V policy s now (client.request n)).2
      (removedCount (process I V policy s now (client.request n)).1)
      (dropOutcome n (s.regs.lookup client.regKey)) := by
  cases horder : isOutOfOrder s now client.regKey client.callId n with
  | true =>
      have hkept : dropOutcome n (s.regs.lookup client.regKey) = .kept := by
        cases hheld : s.regs.lookup client.regKey with
        | none => rfl
        | some r =>
            rw [isOutOfOrder_held hheld, notNewer_own (howner r hheld), decide_eq_true_eq] at horder
            exact if_pos horder
      rw [hkept]
      exact comes_kept h honly I V now horder
  | false =>
      have hprocess := process_names h I V now s
      rw [if_neg (by rw [horder]; exact Bool.false_ne_true), if_pos hexpires, Prod.mk.injEq] at hprocess
      rw [hprocess.1, hprocess.2, unregisterBinding]
      cases hheld : s.regs.lookup client.regKey with
      | none =>
          change s.regs.lookup (client.aor, client.key) = none at hheld
          rw [hheld]
          exact .of_eq honly
      | some r =>
          have hnew : ¬ n ≤ r.cseq := by
            rwa [isOutOfOrder_held hheld, notNewer_own (howner r hheld), decide_eq_false_iff_not] at horder
          have hspared : spared now (some (client.callId, n)) r = false := by
            rw [spared, if_pos (howner r hheld)]
            exact decide_eq_false hnew
          change s.regs.lookup (client.aor, client.key) = some r at hheld
          simp only [hheld, hspared]
          rw [dropOutcome, if_neg hnew, entomb_eq hsize]
          exact comes_removed honly

theorem OnlyKey.sweep (h : OnlyKey client s) (f : RegKey → Registration → Bool)
    (tombs : Table RegKey Tombstone) :
    OnlyKey client ⟨KeyedTable.sweep (fun k r => if f k r then none else some r) s.regs, tombs⟩ := by
  intro k r hr hk
  rw [lookup_sweep] at hr
  obtain ⟨r', hr', -⟩ := Option.bind_eq_some_iff.mp hr
  exact h k r' hr' hk

theorem process_wildcard (hwild : (client.request n).wildcard = true)
    (hcontacts : (client.request n).contacts = []) (hzero : (client.request n).expiresHeader = some 0)
    (I : Iteration RegKey Registration) (V : Uppering) (now : Nat) (s : InMemoryRegistrar) :
    (process I V policy s now (client.request n)).2 =
        (unregisterAll I s now client.aor (some (client.callId, n))).2 ∧
      removedCount (process I V policy s now (client.request n)).1 =
        (unregisterAll I s now client.aor (some (client.callId, n))).1.length := by
  rw [process, if_pos hwild, if_neg (not_not.mpr hcontacts), if_pos hzero, client.aor_eq,
    client.callId_eq, client.cseq_eq]
  exact ⟨rfl, rfl⟩

/-- The wildcard takes the one binding of the address of record, if it is older. -/
theorem comes_dropped_wildcard (honly : OnlyKey client s) (hsize : size s.tombstones < maxTombstones)
    (howner : ∀ r, s.regs.lookup client.regKey = some r → r.callId = client.callId)
    (I : Iteration RegKey Registration) (now : Nat) :
    Comes client now n s (unregisterAll I s now client.aor (some (client.callId, n))).2
      (unregisterAll I s now client.aor (some (client.callId, n))).1.length
      (dropOutcome n (s.regs.lookup client.regKey)) := by
  have hown : ofAor client.aor client.regKey = true := decide_eq_true rfl
  have hgone : (I.order s.regs).filter
      (fun e => ofAor client.aor e.1 && wiped (some (client.callId, n)) e.2) =
      ((s.regs.lookup client.regKey).filter fun r =>
        ofAor client.aor client.regKey && wiped (some (client.callId, n)) r).toList.map
          (Sigma.mk client.regKey) := by
    apply order_filter_single
    intro k r hr hp
    rw [Bool.and_eq_true] at hp
    exact honly k r hr (of_decide_eq_true hp.1)
  have honly' := honly.sweep (fun k r => ofAor client.aor k && wiped (some (client.callId, n)) r)
  rw [unregisterAll, hgone]
  cases hheld : s.regs.lookup client.regKey with
  | none =>
      refine ⟨?_, rfl, rfl, le_rfl, honly' _⟩
      rw [lookup_sweep, hheld]
      rfl
  | some r =>
      have hwiped : wiped (some (client.callId, n)) r = !decide (n ≤ r.cseq) := by
        rw [wiped, notNewer_own (howner r hheld)]
      rw [Option.filter_some, hown, hwiped, Bool.true_and, dropOutcome]
      by_cases hle : n ≤ r.cseq
      · rw [if_pos hle, decide_eq_true hle, if_neg (by decide)]
        refine ⟨?_, rfl, rfl, le_rfl, honly' _⟩
        rw [lookup_sweep, hheld, Option.bind_some, hown, hwiped, decide_eq_true hle]
        rfl
      · rw [if_neg hle, decide_eq_false hle, if_pos (by decide)]
        refine ⟨?_, ?_, rfl, ?_, honly' _⟩
        · rw [lookup_sweep, hheld, Option.bind_some, hown, hwiped, decide_eq_false hle]
          rfl
        · change (entomb now client.regKey (some (client.callId, n)) s.tombstones).lookup _ = _
          rw [entomb_eq hsize]
          exact AList.lookup_insert _
        · change size (entomb now client.regKey (some (client.callId, n)) s.tombstones) ≤ _
          rw [entomb_eq hsize]
          exact size_insert_le _ _ _

/-- Every un-REGISTER of the dialog, by name or by wildcard, comes to the same. -/
theorem comes_dropped (hdrop : client.drops n = true) (honly : OnlyKey client s)
    (hsize : size s.tombstones < maxTombstones)
    (howner : ∀ r, s.regs.lookup client.regKey = some r → r.callId = client.callId)
    (I : Iteration RegKey Registration) (V : Uppering) (now : Nat) :
    Comes client now n s (process I V policy s now (client.request n)).2
      (removedCount (process I V policy s now (client.request n)).1)
      (dropOutcome n (s.regs.lookup client.regKey)) := by
  rcases client.shape n with ⟨hwild, hcontacts, hzero⟩ | ⟨hwild, c, hcontacts, hkey, hbrief⟩
  · obtain ⟨hst, hcount⟩ := process_wildcard hwild hcontacts hzero I V now s
    rw [hst, hcount]
    exact comes_dropped_wildcard honly hsize howner I now
  · rw [Client.drops, hcontacts, List.all_cons, List.all_nil, Bool.and_true, decide_eq_true_eq] at hdrop
    exact comes_dropped_contact ⟨hwild, hcontacts, hkey, hbrief⟩ honly hsize howner I V now hdrop

theorem names_of_not_drops (hdrop : client.drops n = false) :
    ∃ c, Names client n c ∧ granted policy (client.request n) c ≠ 0 := by
  rcases client.shape n with ⟨-, hcontacts, -⟩ | ⟨hwild, c, hcontacts, hkey, hbrief⟩
  · rw [Client.drops, hcontacts] at hdrop
    cases hdrop
  · rw [Client.drops, hcontacts, List.all_cons, List.all_nil, Bool.and_true,
      decide_eq_false_iff_not] at hdrop
    exact ⟨c, ⟨hwild, hcontacts, hkey, hbrief⟩, hdrop⟩

end Own

/-- What the registrar remembers agrees with what was delivered. -/
structure Tracks {policy : RegisterPolicy} (client : Client policy) (start : Nat) (s : Delivery) :
    Prop where
  granted : ∀ r, client.held s = some r →
    client.Granted r.cseq r ∧ r.cseq ∈ s.delivered ∧ client.drops r.cseq = false ∧
      ∀ k ∈ s.delivered, k ≤ r.cseq
  absent : client.held s = none → s.delivered = [] ∨
    ∃ d ∈ s.delivered, client.drops d = true ∧ ∀ k ∈ s.delivered, k ≤ d
  tombstone : ∀ t, s.registrar.tombstones.lookup client.regKey = some t →
    t.callId = client.callId ∧ s.removedBy = some t.cseq ∧ start ≤ t.removedAt
  unmarked : s.registrar.tombstones.lookup client.regKey = none → s.removedBy = none
  removed : ∀ r ∈ s.removedBy, r ∈ s.delivered ∧ client.drops r = true
  size_le : size s.registrar.tombstones ≤ s.removals
  only : OnlyKey client s.registrar

section Runs

variable {I : Iteration RegKey Registration} {V : Uppering} {policy : RegisterPolicy}
  {client : Client policy} {start now : Nat} {n : UInt32} {s : Delivery}

theorem Tracks.right (h : Tracks client start s) : Right client s := by
  intro n hn hmax
  split
  next hdrop =>
    cases hheld : client.held s with
    | none => rfl
    | some r =>
        obtain ⟨-, hmem, hkeep, hnewest⟩ := h.granted r hheld
        have heq : r.cseq = n := UInt32.le_antisymm (hmax r.cseq hmem) (hnewest n hn)
        rw [heq, hdrop] at hkeep
        cases hkeep
  next hkeep =>
    cases hheld : client.held s with
    | some r =>
        obtain ⟨hgranted, hmem, -, hnewest⟩ := h.granted r hheld
        have heq : r.cseq = n := UInt32.le_antisymm (hmax r.cseq hmem) (hnewest n hn)
        exact ⟨r, rfl, heq ▸ hgranted⟩
    | none =>
        rcases h.absent hheld with hnil | ⟨d, hd, hdrop, hnewest⟩
        · rw [hnil] at hn
          cases hn
        · have heq : d = n := UInt32.le_antisymm (hmax d hd) (hnewest n hn)
          exact absurd (heq ▸ hdrop) hkeep

/-- Without a binding, a request is out of order if it is not newer than the one
that removed the binding. -/
theorem Tracks.isOutOfOrder_absent (h : Tracks client start s) (hheld : client.held s = none)
    (hstart : start ≤ now) (httl : now - start < tombstoneTtlMs) :
    isOutOfOrder s.registrar now client.regKey client.callId n = true ↔ ∃ r ∈ s.removedBy, n ≤ r := by
  rw [Client.held] at hheld
  simp only [isOutOfOrder, hheld]
  cases ht : s.registrar.tombstones.lookup client.regKey with
  | none =>
      rw [h.unmarked ht]
      simp
  | some t =>
      obtain ⟨hcall, hby, hage⟩ := h.tombstone t ht
      have hfresh : isFresh now t = true := by
        apply decide_eq_true
        omega
      rw [hby]
      simp [hfresh, hcall]

theorem Tracks.owner (h : Tracks client start s) :
    ∀ r, s.registrar.regs.lookup client.regKey = some r → r.callId = client.callId :=
  fun r hr => (h.granted r hr).1.1

/-- An outcome that leaves the binding and the tombstone, for a request that is
not the newest or does not change what the newest asks for. -/
theorem Tracks.keep (h : Tracks client start s) {s' : InMemoryRegistrar} {removals : Nat}
    (hc : Comes client now n s.registrar s' removals .kept)
    (hgranted : ∀ r, client.held s = some r → n ≤ r.cseq)
    (habsent : client.held s = none → client.drops n = true ∨ ∃ d ∈ s.delivered, n ≤ d) :
    Tracks client start ⟨s', n :: s.delivered, if removals = 0 then s.removedBy else some n,
      s.removals + removals⟩ := by
  have hzero : removals = 0 := hc.removals_eq
  have hheld : client.held ⟨s', n :: s.delivered, if removals = 0 then s.removedBy else some n,
      s.removals + removals⟩ = client.held s := hc.held
  have htomb : s'.tombstones.lookup client.regKey =
      s.registrar.tombstones.lookup client.regKey := hc.tombstone
  rw [if_pos hzero] at hheld ⊢
  constructor
  case granted =>
    intro r hr
    rw [hheld] at hr
    obtain ⟨hg, hmem, hkeep, hnewest⟩ := h.granted r hr
    refine ⟨hg, List.mem_cons_of_mem _ hmem, hkeep, ?_⟩
    exact List.forall_mem_cons.mpr ⟨hgranted r hr, hnewest⟩
  case absent =>
    intro hnone
    rw [hheld] at hnone
    right
    rcases h.absent hnone with hnil | ⟨d, hd, hdrop, hnewest⟩
    · rcases habsent hnone with hdrop | ⟨d, hd, -⟩
      · refine ⟨n, List.mem_cons_self, hdrop, ?_⟩
        intro k hk
        rw [hnil, List.mem_singleton] at hk
        rw [hk]
        exact UInt32.le_refl n
      · rw [hnil] at hd
        cases hd
    · by_cases hle : n ≤ d
      · refine ⟨d, List.mem_cons_of_mem _ hd, hdrop, ?_⟩
        exact List.forall_mem_cons.mpr ⟨hle, hnewest⟩
      · rcases habsent hnone with hdrop' | ⟨d', hd', hle'⟩
        · refine ⟨n, List.mem_cons_self, hdrop', ?_⟩
          intro k hk
          rcases List.mem_cons.mp hk with rfl | hk
          · exact UInt32.le_refl _
          · exact UInt32.le_trans (hnewest k hk) (UInt32.le_of_lt (UInt32.not_le.mp hle))
        · exact absurd (UInt32.le_trans hle' (hnewest d' hd')) hle
  case tombstone =>
    intro t ht
    exact h.tombstone t (htomb.symm.trans ht)
  case unmarked =>
    intro hnone
    exact h.unmarked (htomb.symm.trans hnone)
  case removed =>
    intro r hr
    obtain ⟨hmem, hdrop⟩ := h.removed r hr
    exact ⟨List.mem_cons_of_mem _ hmem, hdrop⟩
  case size_le => exact hc.size_le.trans (Nat.add_le_add_right h.size_le _)
  case only => exact hc.only

/-- The newest request stored the binding. -/
theorem Tracks.store (h : Tracks client start s) {s' : InMemoryRegistrar} {removals : Nat}
    {r : Registration} (hc : Comes client now n s.registrar s' removals (.stored r))
    (hgranted : client.Granted n r) (hkeep : client.drops n = false)
    (hnewest : ∀ k ∈ s.delivered, k ≤ n) :
    Tracks client start ⟨s', n :: s.delivered, if removals = 0 then s.removedBy else some n,
      s.removals + removals⟩ := by
  have hzero : removals = 0 := hc.removals_eq
  have hheld : s'.regs.lookup client.regKey = some r := hc.held
  have htomb : s'.tombstones.lookup client.regKey =
      s.registrar.tombstones.lookup client.regKey := hc.tombstone
  rw [if_pos hzero]
  constructor
  case granted =>
    intro r' hr'
    obtain rfl : r = r' := Option.some.inj (hheld.symm.trans hr')
    rw [hgranted.2.1]
    refine ⟨hgranted, List.mem_cons_self, hkeep, ?_⟩
    exact List.forall_mem_cons.mpr ⟨UInt32.le_refl n, hnewest⟩
  case absent =>
    intro hnone
    cases hheld.symm.trans hnone
  case tombstone =>
    intro t ht
    exact h.tombstone t (htomb.symm.trans ht)
  case unmarked =>
    intro hnone
    exact h.unmarked (htomb.symm.trans hnone)
  case removed =>
    intro r' hr'
    obtain ⟨hmem, hdrop⟩ := h.removed r' hr'
    exact ⟨List.mem_cons_of_mem _ hmem, hdrop⟩
  case size_le => exact hc.size_le.trans (Nat.add_le_add_right h.size_le _)
  case only => exact hc.only

/-- The newest request removed the binding. -/
theorem Tracks.remove (h : Tracks client start s) {s' : InMemoryRegistrar} {removals : Nat}
    (hc : Comes client now n s.registrar s' removals .removed) (hdrop : client.drops n = true)
    (hnewest : ∀ k ∈ s.delivered, k ≤ n) (hstart : start ≤ now) :
    Tracks client start ⟨s', n :: s.delivered, if removals = 0 then s.removedBy else some n,
      s.removals + removals⟩ := by
  have hone : removals = 1 := hc.removals_eq
  have hheld : s'.regs.lookup client.regKey = none := hc.held
  have htomb : s'.tombstones.lookup client.regKey = some ⟨client.callId, n, now⟩ := hc.tombstone
  have hremoved : removals ≠ 0 := by omega
  rw [if_neg hremoved]
  constructor
  case granted =>
    intro r hr
    cases hheld.symm.trans hr
  case absent =>
    intro _
    refine .inr ⟨n, List.mem_cons_self, hdrop, ?_⟩
    exact List.forall_mem_cons.mpr ⟨UInt32.le_refl n, hnewest⟩
  case tombstone =>
    intro t ht
    obtain rfl := Option.some.inj (htomb.symm.trans ht)
    exact ⟨rfl, rfl, hstart⟩
  case unmarked =>
    intro hnone
    cases htomb.symm.trans hnone
  case removed =>
    intro r hr
    obtain rfl := Option.some.inj hr
    exact ⟨List.mem_cons_self, hdrop⟩
  case size_le => exact hc.size_le.trans (Nat.add_le_add_right h.size_le _)
  case only => exact hc.only

theorem Tracks.own_drop (h : Tracks client start s) (hdrop : client.drops n = true)
    (hstart : start ≤ now) (hfew : s.removals < maxTombstones) :
    Tracks client start (step I V client s (now, .own n)) := by
  have hc := comes_dropped hdrop h.only (lt_of_le_of_lt h.size_le hfew) h.owner I V now
  cases hheld : client.held s with
  | none =>
      rw [← Client.held, hheld] at hc
      exact h.keep hc (fun r hr => by cases hheld.symm.trans hr) (fun _ => .inl hdrop)
  | some r =>
      obtain ⟨-, -, -, hnewest⟩ := h.granted r hheld
      rw [← Client.held, hheld, dropOutcome] at hc
      split at hc
      next hle =>
        refine h.keep hc ?_ ?_
        · intro r' hr'
          obtain rfl := Option.some.inj (hheld.symm.trans hr')
          exact hle
        · intro hnone
          cases hheld.symm.trans hnone
      next hle =>
        refine h.remove hc hdrop ?_ hstart
        intro k hk
        exact UInt32.le_trans (hnewest k hk) (UInt32.le_of_lt (UInt32.not_le.mp hle))

/-- A REGISTER in order is stored. -/
theorem Tracks.own_stored (h : Tracks client start s) (hkeep : client.drops n = false)
    (horder : isOutOfOrder s.registrar now client.regKey client.callId n = false) :
    ∃ r, client.Granted n r ∧ Comes client now n s.registrar
      (process I V policy s.registrar now (client.request n)).2
      (removedCount (process I V policy s.registrar now (client.request n)).1) (.stored r) := by
  obtain ⟨c, hnames, hexpires⟩ := names_of_not_drops hkeep
  exact comes_stored hnames h.only I V now horder hexpires

theorem Tracks.own_register (h : Tracks client start s) (hkeep : client.drops n = false)
    (hstart : start ≤ now) (httl : now - start < tombstoneTtlMs)
    (hnot : NotOvertaken client s (now, .own n)) :
    Tracks client start (step I V client s (now, .own n)) := by
  obtain ⟨c, hnames, -⟩ := names_of_not_drops hkeep
  cases horder : isOutOfOrder s.registrar now client.regKey client.callId n with
  | true =>
      refine h.keep (comes_kept hnames h.only I V now horder) ?_ ?_
      · intro r hr
        rw [isOutOfOrder_held hr, notNewer_own (h.owner r hr), decide_eq_true_eq] at horder
        exact horder
      · intro hnone
        obtain ⟨r, hr, hle⟩ := (h.isOutOfOrder_absent hnone hstart httl).mp horder
        exact .inr ⟨r, (h.removed r hr).1, hle⟩
  | false =>
      obtain ⟨r, hgranted, hc⟩ := h.own_stored (I := I) (V := V) hkeep horder
      refine h.store hc hgranted hkeep ?_
      intro k hk
      cases hheld : client.held s with
      | some r' =>
          rw [isOutOfOrder_held hheld, notNewer_own (h.owner r' hheld), decide_eq_false_iff_not] at horder
          exact UInt32.le_trans ((h.granted r' hheld).2.2.2 k hk)
            (UInt32.le_of_lt (UInt32.not_le.mp horder))
      | none =>
          have hnewer : ∀ r ∈ s.removedBy, r < n := by
            intro r hr
            by_contra hle
            have hout := (h.isOutOfOrder_absent hheld hstart httl).mpr ⟨r, hr, UInt32.not_lt.mp hle⟩
            rw [horder] at hout
            cases hout
          rcases h.absent hheld with hnil | ⟨d, hd, hdrop, hmax⟩
          · rw [hnil] at hk
            cases hk
          · exact UInt32.le_trans (hmax k hk) (UInt32.le_of_lt (hnot hkeep hheld hnewer d hd hdrop))

theorem Tracks.other (h : Tracks client start s) {req : RegisterRequest}
    (hscope : InScope I V client start s (now, .other req)) (hroom : HasRoom client s (now, .other req)) :
    Tracks client start (step I V client s (now, .other req)) := by
  obtain ⟨-, -, hfew, hne⟩ := hscope
  have hsize : size s.registrar.tombstones + removedCount (process I V policy s.registrar now req).1 <
      maxTombstones := lt_of_le_of_lt (Nat.add_le_add_right h.size_le _) hfew
  have hroom' : RoomFor client.regKey req.aor req.contacts.length s.registrar.regs := by
    cases hheld : client.held s with
    | none => exact .inl hheld
    | some r => exact .inr (hroom (hheld ▸ rfl))
  obtain ⟨hregs, htombs, hle⟩ := process_other (I := I) (V := V) s.registrar (Ne.symm hne) hroom' hsize
  constructor
  case granted =>
    intro r hr
    exact h.granted r (hregs.symm.trans hr)
  case absent =>
    intro hnone
    exact h.absent (hregs.symm.trans hnone)
  case tombstone =>
    intro t ht
    exact h.tombstone t (htombs.symm.trans ht)
  case unmarked =>
    intro hnone
    exact h.unmarked (htombs.symm.trans hnone)
  case removed => exact h.removed
  case size_le => exact hle.trans (Nat.add_le_add_right h.size_le _)
  case only =>
    intro k r hr hk
    by_contra hother
    have hnone : s.registrar.regs.lookup k = none := by
      cases hold : s.registrar.regs.lookup k with
      | none => rfl
      | some r' => exact absurd (h.only k r' hold hk) hother
    have hk' : k.1 ≠ req.aor := fun heq => hne (heq.symm.trans hk)
    obtain ⟨hsame, -⟩ := process_other (I := I) (V := V) s.registrar hk' (.inl hnone) hsize
    cases hr.symm.trans (hsame.trans hnone)

/-- A message that no other overtook keeps the registrar and the delivered requests in step. -/
theorem Tracks.step (h : Tracks client start s) {e : Nat × Message}
    (hscope : InScope I V client start s e) (hroom : HasRoom client s e)
    (hnot : NotOvertaken client s e) : Tracks client start (step I V client s e) := by
  obtain ⟨now, n | req⟩ := e
  · obtain ⟨hstart, httl, hfew, -⟩ := hscope
    cases hdrop : client.drops n with
    | true => exact h.own_drop hdrop hstart (lt_of_le_of_lt (Nat.le_add_right _ _) hfew)
    | false => exact h.own_register hdrop hstart httl hnot
  · exact h.other hscope hroom

/-- An overtaken REGISTER is stored although an un-REGISTER is the newest. -/
theorem Tracks.notOvertaken (h : Tracks client start s) {e : Nat × Message}
    (hscope : InScope I V client start s e) (hright : Right client (RegisterOrder.step I V client s e)) :
    NotOvertaken client s e := by
  obtain ⟨now, n | req⟩ := e
  · intro hkeep hheld hnewer k hk hdrop
    by_contra hle
    obtain ⟨hstart, httl, -, -⟩ := hscope
    have horder : isOutOfOrder s.registrar now client.regKey client.callId n = false := by
      rw [← Bool.not_eq_true, h.isOutOfOrder_absent hheld hstart httl]
      rintro ⟨r, hr, hle⟩
      exact UInt32.not_lt.mpr hle (hnewer r hr)
    obtain ⟨r, -, hc⟩ := h.own_stored (I := I) (V := V) hkeep horder
    rcases h.absent hheld with hnil | ⟨d, hd, hdrop', hmax⟩
    · rw [hnil] at hk
      cases hk
    · have hnone := hright d (List.mem_cons_of_mem _ hd) (by
        intro k' hk'
        rcases List.mem_cons.mp hk' with rfl | hk'
        · exact UInt32.le_trans (UInt32.not_lt.mp hle) (hmax k hk)
        · exact hmax k' hk')
      rw [if_pos hdrop'] at hnone
      cases hc.held.symm.trans hnone
  · trivial

theorem tracks_start (client : Client policy) (start : Nat) : Tracks client start .start where
  granted := by
    intro r hr
    cases hr
  absent := fun _ => .inl rfl
  tombstone := by
    intro t ht
    cases ht
  unmarked := fun _ => rfl
  removed := by
    intro r hr
    cases hr
  size_le := le_rfl
  only := by
    intro k r hr
    cases hr

end Runs

/-- In every order of delivery the binding is the one that the newest request
asked for, as long as no REGISTER is overtaken by an un-REGISTER that finds
nothing to remove. -/
theorem newest_register_wins_iff_not_overtaken (I : Iteration RegKey Registration) (V : Uppering)
    {policy : RegisterPolicy} (client : Client policy) (start : Nat) {msgs : List (Nat × Message)}
    (hscope : Throughout (step I V client) (InScope I V client start) .start msgs)
    (hroom : Throughout (step I V client) (HasRoom client) .start msgs) :
    Throughout (step I V client) (fun s e => Right client (step I V client s e)) .start msgs ↔
      Throughout (step I V client) (NotOvertaken client) .start msgs := by
  have hC : Throughout (step I V client) (fun s e => InScope I V client start s e ∧ HasRoom client s e)
      .start msgs := throughout_and.mpr ⟨hscope, hroom⟩
  refine throughout_iff_of ?_ ?_ (tracks_start client start) hC
  · intro s e h hC
    exact ⟨h.notOvertaken hC.1, fun hnot => (h.step hC.1 hC.2 hnot).right⟩
  · intro s e h hC hright
    exact h.step hC.1 hC.2 (h.notOvertaken hC.1 hright)

def anyInterval : RegisterPolicy := .fromConfig 60 3600 3600

def requestOf (aor : List Char) (expires n : UInt32) : RegisterRequest where
  aor
  contacts := [⟨"sip:192.0.2.1".toList, some expires, none, none⟩]
  wildcard := false
  expiresHeader := none
  callId := ['1']
  cseq := n
  source := NetAddr.ofOctets 192 0 2 1 5060
  transport := "UDP".toList
  userAgent := none
  replyTx := none

/-- A client that registers with every odd CSeq and goes away with every even one. -/
def alternating : Client anyInterval where
  aor := ['a']
  callId := ['1']
  key := bindingKey "sip:192.0.2.1".toList none none
  request n := requestOf ['a'] (if n % 2 = 0 then 0 else 3600) n
  aor_eq _ := rfl
  callId_eq _ := rfl
  cseq_eq _ := rfl
  shape n := by
    refine .inr ⟨rfl, _, rfl, rfl, ?_⟩
    split
    next => rfl
    next => rfl

/-- Coming, going, and the first request once more, with another client in between. -/
def comeAndGo : List (Nat × Message) :=
  [(0, .own 1), (5, .other (requestOf ['b'] 3600 1)), (10, .own 2), (20, .own 1)]

theorem newest_register_wins_comeAndGo :
    Throughout (step .newestFirst (fun c => [c]) alternating)
      (fun s e => Right alternating (step .newestFirst (fun c => [c]) alternating s e)) .start comeAndGo := by
  refine (newest_register_wins_iff_not_overtaken .newestFirst (fun c => [c]) alternating
    0 ?_ ?_).mpr ?_
  · exact ⟨⟨by decide, by decide, by decide, trivial⟩, ⟨by decide, by decide, by decide, by decide⟩,
      ⟨by decide, by decide, by decide, trivial⟩, ⟨by decide, by decide, by decide, trivial⟩, trivial⟩
  · refine ⟨trivial, fun _ => ⟨by decide, by decide⟩, trivial, trivial, trivial⟩
  · refine ⟨?_, trivial, ?_, ?_, trivial⟩
    · intro _ _ _ k hk
      cases hk
    · intro hkeep
      cases hkeep
    · intro _ _ hnewer
      exact absurd (hnewer 2 rfl) (by decide)

/-- The client goes away before its first request comes. -/
def goneFirst : List (Nat × Message) := [(0, .own 2), (10, .own 1)]

/-- The REGISTER that comes late brings the binding back. -/
theorem overtaken_register_revives_binding :
    ¬ Throughout (step .newestFirst (fun c => [c]) alternating)
      (fun s e => Right alternating (step .newestFirst (fun c => [c]) alternating s e)) .start goneFirst := by
  rintro ⟨-, hlate, -⟩
  have hdrop : alternating.drops 2 = true := by decide
  have hnewest : ∀ k ∈ [(1 : UInt32), 2], k ≤ 2 :=
    List.forall_mem_cons.mpr ⟨by decide, List.forall_mem_singleton.mpr (by decide)⟩
  have hnone := hlate 2 (by decide) hnewest
  rw [if_pos hdrop] at hnone
  revert hnone
  decide

end NixiSbc.RegisterOrder

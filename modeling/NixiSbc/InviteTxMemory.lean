import NixiSbc.InviteTx
import NixiSbc.StateRuns
import Mathlib.Data.Option.Basic

namespace NixiSbc.InviteTxMemory

open ByteWords Stun KeyedTable StateRuns InviteTx
open B2bua (Transport)

/-- What can happen to the cache, each with its arguments and the time of the
call. -/
inductive Op
  | begin (key : List Char) (now : Nat)
  | recordSent (key : List Char) (now : Nat) (response : Bytes) (status : UInt16)
      (dest : SocketAddr) (transport : Transport) (replyTx : Option Nat)
  | acked (key : List Char)
  | dueRetransmissions (now : Nat)
  | prune (now : Nat)

def step (cache : Cache) : Op → Cache
  | .begin key now => (begin cache key now).2
  | .recordSent key now response status dest transport replyTx =>
      recordSent cache key now response status dest transport replyTx
  | .acked key => acked cache key
  | .dueRetransmissions now => (dueRetransmissions cache now).2
  | .prune now => (pruneAt cache now).2

/-- What an observer knows of a transaction since it was accepted as new: the
responses recorded for it, the latest first, when the first final was, and how
many copies were handed out. -/
structure Life where
  recorded : List (Bytes × UInt16)
  firstSeen : Nat
  finalAt : Option Nat
  acked : Bool
  resent : Nat

def Life.start (now : Nat) : Life := ⟨[], now, none, false, 0⟩

def Life.record (l : Life) (now : Nat) (response : Bytes) (status : UInt16) : Life :=
  { l with
    recorded := (response, status) :: l.recorded
    finalAt := if status ≥ 200 ∧ l.finalAt = none then some now else l.finalAt }

/-- The response was recorded as a final one. -/
def Life.IsFinal (l : Life) (response : Bytes) : Prop :=
  ∃ status, (response, status) ∈ l.recorded ∧ status ≥ 200

/-- The time to absorb retransmissions is over. -/
def Life.over (l : Life) (now : Nat) : Bool :=
  match l.finalAt with
  | some f => finalAbsorb ≤ now - f
  | none => pendingAbsorb ≤ now - l.firstSeen

def copiesAt (k : List Char) (cache : Cache) (now : Nat) :
    List (Bytes × SocketAddr × Transport × Option Nat) :=
  (dueRetransmissions cache now).1.filterMap fun p => if p.1 = k then some p.2 else none

/-- Accepting another transaction evicts this one from a full table. -/
def evicts (cache : Cache) (key k : List Char) : Bool :=
  cache.lookup key = none ∧ size cache ≥ maxEntries ∧ oldest cache = some k

/-- The observer of the transaction with this key. It ends when it is expired
or evicted, and not otherwise. -/
def observe (k : List Char) (cache : Cache) (life : Option Life) : Op → Option Life
  | .begin key now =>
      if key = k then
        match (begin cache key now).1 with
        | .ok _ => some (.start now)
        | .error _ => life
      else if evicts cache key k then none else life
  | .recordSent key now response status _ _ _ =>
      if key = k then life.map fun l => l.record now response status else life
  | .acked key => if key = k then life.map fun l => { l with acked := true } else life
  | .dueRetransmissions now =>
      life.map fun l => { l with resent := l.resent + (copiesAt k cache now).length }
  | .prune now => life.bind fun l => if l.over now then none else some l

/-- What is promised of one operation: only a transaction that is not live is
accepted as new, after a final one only finals are replayed, and a copy is
handed out of a final only, before the ACK and within the bound. -/
def Regular (k : List Char) (cache : Cache) (life : Option Life) : Op → Prop
  | .begin key now =>
      key = k →
        match (begin cache key now).1 with
        | .ok _ => life = none
        | .error replay =>
            ∃ l, life = some l ∧ (l.finalAt ≠ none → ∃ r, replay = some r ∧ l.IsFinal r)
  | .dueRetransmissions now =>
      ∀ c ∈ copiesAt k cache now, ∃ l, life = some l ∧ l.IsFinal c.1 ∧ l.acked = false ∧
        l.resent + (copiesAt k cache now).length ≤ maxRetransmits
  | _ => True

/-- The operations that keep the promise: no provisional response is recorded
after a final one, and a final that was given up is not armed again. -/
def Allowed (k : List Char) (cache : Cache) (life : Option Life) : Op → Prop
  | .recordSent key _ _ status _ transport _ =>
      key = k → ∀ e ∈ cache.lookup k, ∀ l ∈ life,
        (e.finalAt ≠ none → status ≥ 200) ∧
        (status ≥ 300 → transport = .udp → e.acked = false → e.retransmit = none →
          l.resent < maxRetransmits)
  | _ => True

instance (k : List Char) (cache : Cache) (life : Option Life) (op : Op) :
    Decidable (Allowed k cache life op) :=
  match op with
  | .begin .. => inferInstanceAs (Decidable True)
  | .recordSent .. => inferInstanceAs (Decidable (_ → _))
  | .acked .. => inferInstanceAs (Decidable True)
  | .dueRetransmissions .. => inferInstanceAs (Decidable True)
  | .prune .. => inferInstanceAs (Decidable True)

/-- The cache beside the observer of one transaction. -/
def observed (k : List Char) (s : Cache × Option Life) (op : Op) : Cache × Option Life :=
  (step s.1 op, observe k s.1 s.2 op)

def RegularRun (k : List Char) (ops : List Op) : Prop :=
  Throughout (observed k) (fun s => Regular k s.1 s.2) (∅, none) ops

def AllowedRun (k : List Char) (ops : List Op) : Prop :=
  Throughout (observed k) (fun s => Allowed k s.1 s.2) (∅, none) ops

/-- The entry holds what the observer knows. -/
structure Remembers (l : Life) (e : TxEntry) : Prop where
  last : e.lastResponse = l.recorded.head?.map Prod.fst
  firstSeen : e.firstSeen = l.firstSeen
  finalAt : e.finalAt = l.finalAt
  acked : e.acked = l.acked
  final : l.finalAt ≠ none → ∃ p, l.recorded.head? = some p ∧ p.2 ≥ 200
  armed : ∀ r, e.retransmit = some r → l.acked = false ∧ l.finalAt ≠ none ∧ r.sent = l.resent
  rest : e.retransmit = none → l.acked = false → l.resent = 0 ∨ l.resent = maxRetransmits
  bound : l.resent ≤ maxRetransmits

theorem Remembers.lastFinal {l : Life} {e : TxEntry} (h : Remembers l e) (hf : l.finalAt ≠ none) :
    ∃ r, e.lastResponse = some r ∧ l.IsFinal r := by
  obtain ⟨⟨r, status⟩, hhead, hstatus⟩ := h.final hf
  refine ⟨r, by rw [h.last, hhead]; rfl, status, ?_, hstatus⟩
  exact List.mem_of_mem_head? (by rw [hhead]; rfl)

theorem remembers_start (now : Nat) : Remembers (.start now) ⟨none, now, none, false, none⟩ where
  last := rfl
  firstSeen := rfl
  finalAt := rfl
  acked := rfl
  final h := absurd rfl h
  armed _ h := by cases h
  rest _ _ := .inl rfl
  bound := Nat.zero_le _

theorem Remembers.record {l : Life} {e : TxEntry} (h : Remembers l e) (now : Nat) (response : Bytes)
    {status : UInt16} (dest : SocketAddr) {transport : Transport} (replyTx : Option Nat)
    (hprov : e.finalAt ≠ none → status ≥ 200)
    (hrearm : status ≥ 300 → transport = .udp → e.acked = false → e.retransmit = none →
      l.resent < maxRetransmits) :
    Remembers (l.record now response status)
      (noteResponse now response status dest transport replyTx e) where
  last := rfl
  firstSeen := h.firstSeen
  finalAt := by
    change (if _ then _ else _) = (if _ then _ else _)
    rw [h.finalAt]
  acked := h.acked
  final hf := by
    refine ⟨(response, status), rfl, ?_⟩
    by_contra hlow
    change (if _ then _ else _) ≠ _ at hf
    rw [if_neg fun hc => hlow hc.1, ← h.finalAt] at hf
    exact hlow (hprov hf)
  armed r hr := by
    change (if _ then _ else _) = some r at hr
    have hkept (hl : l.finalAt ≠ none) : (l.record now response status).finalAt ≠ none := by
      change (if _ then _ else _) ≠ _
      rw [if_neg fun hc => hl hc.2]
      exact hl
    split at hr
    next hnew =>
      obtain ⟨h300, hudp, hack, hidle⟩ := hnew
      cases hr
      have h200 : status ≥ 200 := UInt16.le_trans (by decide : (200 : UInt16) ≤ 300) h300
      have hack' : l.acked = false := h.acked ▸ hack
      refine ⟨hack', ?_, ?_⟩
      · by_cases hl : l.finalAt = none
        · change (if _ then _ else _) ≠ _
          rw [if_pos ⟨h200, hl⟩]
          exact Option.some_ne_none now
        · exact hkept hl
      · have := hrearm h300 hudp hack hidle
        rcases h.rest hidle hack' with hzero | hmax
        · exact hzero.symm
        · change 0 = l.resent
          omega
    next =>
      obtain ⟨hack, hl, hsent⟩ := h.armed r hr
      exact ⟨hack, hkept hl, hsent⟩
  rest hr hack := by
    change (if _ then _ else _) = none at hr
    split at hr
    next => cases hr
    next => exact h.rest hr hack
  bound := h.bound

theorem Remembers.ack {l : Life} {e : TxEntry} (h : Remembers l e) :
    Remembers { l with acked := true } { e with acked := true, retransmit := none } where
  last := h.last
  firstSeen := h.firstSeen
  finalAt := h.finalAt
  acked := rfl
  final := h.final
  armed _ hr := by cases hr
  rest _ hack := by cases hack
  bound := h.bound

theorem Remembers.giveUp {l : Life} {e : TxEntry} (h : Remembers l e)
    (hmax : l.resent = maxRetransmits) : Remembers l { e with retransmit := none } where
  last := h.last
  firstSeen := h.firstSeen
  finalAt := h.finalAt
  acked := h.acked
  final := h.final
  armed _ hr := by cases hr
  rest _ _ := .inr hmax
  bound := h.bound

theorem Remembers.resend {l : Life} {e : TxEntry} (h : Remembers l e) {r : Retransmit}
    (hr : e.retransmit = some r) (hless : r.sent < maxRetransmits) (interval nextAt : Nat) :
    Remembers { l with resent := l.resent + 1 }
      { e with
        retransmit := some { r with sent := r.sent + 1, interval := interval, nextAt := nextAt } } where
  last := h.last
  firstSeen := h.firstSeen
  finalAt := h.finalAt
  acked := h.acked
  final := h.final
  armed _ hr' := by
    obtain ⟨hack, hfinal, hsent⟩ := h.armed r hr
    cases hr'
    exact ⟨hack, hfinal, congrArg (· + 1) hsent⟩
  rest hr' := by cases hr'
  bound := (h.armed r hr).2.2 ▸ hless

/-- A poll hands out at most one copy of an entry, of a final that is not
acknowledged. -/
theorem Remembers.poll {l : Life} {e : TxEntry} (h : Remembers l e) (now : Nat) :
    Remembers { l with resent := l.resent + (copyOf now e).toList.length } (visit now e) ∧
    ∀ c, copyOf now e = some c → l.IsFinal c.1 ∧ l.acked = false ∧ l.resent < maxRetransmits := by
  cases hr : e.retransmit with
  | none =>
      have hcopy : copyOf now e = none := by rw [copyOf, hr]
      have hvisit : visit now e = e := by rw [visit, hr]
      rw [hcopy, hvisit]
      exact ⟨h, fun c hc => by cases hc⟩
  | some r =>
      obtain ⟨hack, hfinal, hsent⟩ := h.armed r hr
      obtain ⟨data, hdata, hisFinal⟩ := h.lastFinal hfinal
      by_cases hlater : r.nextAt > now
      · have hcopy : copyOf now e = none := by simp only [copyOf, hr, if_pos hlater]
        have hvisit : visit now e = e := by simp only [visit, hr, if_pos hlater]
        rw [hcopy, hvisit]
        exact ⟨h, fun c hc => by cases hc⟩
      · by_cases hmax : r.sent ≥ maxRetransmits
        · have hcopy : copyOf now e = none := by
            simp only [copyOf, hr, if_neg hlater, if_pos hmax]
          have hvisit : visit now e = { e with retransmit := none } := by
            simp only [visit, hr, if_neg hlater, if_pos hmax]
          rw [hcopy, hvisit]
          exact ⟨h.giveUp (Nat.le_antisymm h.bound (hsent ▸ hmax)), fun c hc => by cases hc⟩
        · have hcopy : copyOf now e = some (data, r.dest, r.transport, r.replyTx) := by
            simp only [copyOf, hr, if_neg hlater, if_neg hmax, hdata, Option.map_some]
          have hless : r.sent < maxRetransmits := Nat.lt_of_not_le hmax
          rw [hcopy]
          refine ⟨?_, fun c hc => ?_⟩
          · simp only [visit, hr, if_neg hlater, if_neg hmax]
            exact h.resend hr hless _ _
          · cases hc
            exact ⟨hisFinal, hack, hsent ▸ hless⟩

theorem Remembers.absorbs {l : Life} {e : TxEntry} (h : Remembers l e) (now : Nat) :
    InviteTx.absorbs now e = !l.over now := by
  rw [InviteTx.absorbs, Life.over, h.finalAt, h.firstSeen]
  cases l.finalAt with
  | none => simp only [← decide_not, not_le]
  | some f => simp only [← decide_not, not_le]

/-- The table holds the transaction exactly while the observer has it live. -/
def Agrees (k : List Char) (cache : Cache) (life : Option Life) : Prop :=
  Option.Rel Remembers life (cache.lookup k)

theorem copiesAt_eq (k : List Char) (cache : Cache) (now : Nat) :
    copiesAt k cache now = ((cache.lookup k).bind (copyOf now)).toList := by
  rw [copiesAt]
  change (collect (fun _ => copyOf now) cache).filterMap _ = _
  rw [collect_at]

theorem lookup_evict (k key : List Char) (cache : Cache) (hnew : cache.lookup key = none) :
    (evict cache).lookup k = if evicts cache key k then none else cache.lookup k := by
  rw [evict, evicts]
  by_cases hfull : size cache ≥ maxEntries
  · rw [if_pos hfull]
    cases hold : oldest cache with
    | none => simp
    | some k' =>
        by_cases hk : k = k'
        · subst hk
          rw [if_pos (by simp [hnew, hfull])]
          exact AList.lookup_erase k cache
        · rw [if_neg (by simp [Ne.symm hk])]
          exact AList.lookup_erase_ne hk
  · rw [if_neg hfull, if_neg (by simp [hfull])]

theorem Agrees.some_iff {k : List Char} {cache : Cache} {life : Option Life}
    (h : Agrees k cache life) :
    (life = none ∧ cache.lookup k = none) ∨
      ∃ l e, life = some l ∧ cache.lookup k = some e ∧ Remembers l e := by
  rw [Agrees] at h
  cases hl : life with
  | none =>
      rw [hl] at h
      cases he : cache.lookup k with
      | none => exact .inl ⟨rfl, rfl⟩
      | some e =>
          rw [he] at h
          cases h
  | some l =>
      rw [hl] at h
      cases he : cache.lookup k with
      | none =>
          rw [he] at h
          cases h
      | some e =>
          rw [he] at h
          cases h with
          | some hr => exact .inr ⟨l, e, rfl, rfl, hr⟩

/-- A change of one entry, seen by the observer of its key only. -/
theorem Agrees.modify {k : List Char} {cache : Cache} {life : Option Life} (h : Agrees k cache life)
    (key : List Char) {f : TxEntry → TxEntry} {g : Life → Life}
    (hf : key = k → ∀ e, cache.lookup k = some e → ∀ l, life = some l → Remembers l e →
      Remembers (g l) (f e)) :
    Agrees k (modify key f cache) (if key = k then life.map g else life) := by
  rw [Agrees]
  by_cases hk : key = k
  · subst hk
    rw [lookup_modify_self, if_pos rfl]
    rcases h.some_iff with ⟨rfl, hnone⟩ | ⟨l, e, rfl, he, hr⟩
    · rw [hnone]
      exact .none
    · rw [he]
      exact .some (hf rfl e he l rfl hr)
  · rw [lookup_modify_ne (Ne.symm hk), if_neg hk]
    exact h

theorem Agrees.begin {k : List Char} {cache : Cache} {life : Option Life} (h : Agrees k cache life)
    (key : List Char) (now : Nat) :
    Agrees k (begin cache key now).2 (observe k cache life (.begin key now)) := by
  simp only [observe, Agrees]
  cases hkey : cache.lookup key with
  | some e =>
      have hbegin : InviteTx.begin cache key now = (.error e.lastResponse, cache) := by
        rw [InviteTx.begin, hkey]
      have hno : evicts cache key k = false := by simp [evicts, hkey]
      simp only [hbegin, hno, Bool.false_eq_true, if_false, ite_self]
      exact h
  | none =>
      have hbegin : InviteTx.begin cache key now =
          (.ok (), (evict cache).insert key ⟨none, now, none, false, none⟩) := by
        rw [InviteTx.begin, hkey]
      simp only [hbegin]
      by_cases hk : key = k
      · subst hk
        rw [if_pos rfl, AList.lookup_insert]
        exact .some (remembers_start now)
      · rw [if_neg hk, AList.lookup_insert_ne (Ne.symm hk), lookup_evict k key cache hkey]
        split
        next => exact .none
        next => exact h

theorem agrees_step {k : List Char} {cache : Cache} {life : Option Life} (h : Agrees k cache life)
    {op : Op} (hop : Allowed k cache life op) :
    Agrees k (step cache op) (observe k cache life op) := by
  cases op with
  | begin key now => exact h.begin key now
  | recordSent key now response status dest transport replyTx =>
      apply h.modify key
      intro hk e he l hl hr
      obtain ⟨hprov, hrearm⟩ := hop hk e he l hl
      exact hr.record now response dest replyTx hprov hrearm
  | acked key =>
      apply h.modify key
      intro _ _ _ _ _ hr
      exact hr.ack
  | dueRetransmissions now =>
      have hlookup : (dueRetransmissions cache now).2.lookup k =
          (cache.lookup k).bind fun e => some (visit now e) := lookup_sweep ..
      simp only [step, observe, Agrees, hlookup, copiesAt_eq]
      rcases h.some_iff with ⟨rfl, hnone⟩ | ⟨l, e, rfl, he, hr⟩
      · rw [hnone]
        exact .none
      · rw [he]
        exact .some (hr.poll now).1
  | prune now =>
      have hlookup : (pruneAt cache now).2.lookup k =
          (cache.lookup k).bind fun e => if absorbs now e then some e else none := lookup_sweep ..
      simp only [step, observe, Agrees, hlookup]
      rcases h.some_iff with ⟨rfl, hnone⟩ | ⟨l, e, rfl, he, hr⟩
      · rw [hnone]
        exact .none
      · rw [he, Option.bind_some, Option.bind_some, hr.absorbs]
        cases l.over now with
        | true => exact .none
        | false => exact .some hr

theorem regular_of_agrees {k : List Char} {cache : Cache} {life : Option Life}
    (h : Agrees k cache life) (op : Op) : Regular k cache life op := by
  cases op with
  | begin key now =>
      rintro rfl
      rcases h.some_iff with ⟨rfl, hnone⟩ | ⟨l, e, rfl, he, hr⟩
      · rw [begin, hnone]
      · rw [begin, he]
        refine ⟨l, rfl, fun hf => ?_⟩
        obtain ⟨r, hlast, hfinal⟩ := hr.lastFinal hf
        exact ⟨r, hlast, hfinal⟩
  | dueRetransmissions now =>
      intro c hc
      rw [copiesAt_eq] at hc ⊢
      rcases h.some_iff with ⟨-, hnone⟩ | ⟨l, e, rfl, he, hr⟩
      · rw [hnone] at hc
        cases hc
      · rw [he, Option.bind_some, Option.mem_toList] at hc
        obtain ⟨hfinal, hack, hless⟩ := (hr.poll now).2 c hc
        refine ⟨l, rfl, hfinal, hack, ?_⟩
        rw [he, Option.bind_some, hc]
        exact hless
  | recordSent => trivial
  | acked => trivial
  | prune => trivial

/-- In every run without a provisional response after a final one and without
a second arming, the memory of every transaction is regular. -/
theorem invite_memory_regular (k : List Char) (ops : List Op) (hops : AllowedRun k ops) :
    RegularRun k ops := by
  unfold AllowedRun at hops
  unfold RegularRun
  apply throughout_of_invariant (I := fun s : Cache × Option Life => Agrees k s.1 s.2) ?_ ?_ ?_ hops
  · intro s op h hop
    exact agrees_step h hop
  · intro s op h _
    exact regular_of_agrees h op
  · exact Option.Rel.none

/-- A busy answer that is resent once, replayed, acknowledged and expired. -/
def busyRun : List Op :=
  [.begin ['k'] 0, .recordSent ['k'] 1 [1] 100 (NetAddr.ofOctets 192 0 2 1 5060) .udp none,
    .recordSent ['k'] 2 [4] 486 (NetAddr.ofOctets 192 0 2 1 5060) .udp none,
    .dueRetransmissions 502, .begin ['k'] 600, .acked ['k'], .dueRetransmissions 9000, .prune 32002,
    .begin ['k'] 40000]

theorem invite_memory_busy : RegularRun ['k'] busyRun := by
  apply invite_memory_regular
  unfold AllowedRun
  decide

/-- A ringing response that overtakes nothing: it is recorded after the busy one. -/
def lateRinging : List Op :=
  [.begin ['k'] 0, .recordSent ['k'] 1 [4] 486 (NetAddr.ofOctets 192 0 2 1 5060) .udp none,
    .recordSent ['k'] 2 [1] 180 (NetAddr.ofOctets 192 0 2 1 5060) .udp none]

/-- A provisional response recorded after the final one takes its place: it is
what the timer of the final hands out. -/
theorem provisional_after_final_resent :
    (copiesAt ['k'] (lateRinging.foldl step ∅) 501).map Prod.fst = [[1]] ∧
    ¬ RegularRun ['k'] (lateRinging ++ [.dueRetransmissions 501]) := by
  refine ⟨by decide, ?_⟩
  rintro ⟨-, -, -, h, -⟩
  obtain ⟨l, hl, ⟨status, hmem, hfinal⟩, -⟩ := h ([1], NetAddr.ofOctets 192 0 2 1 5060, .udp, none)
    (by decide)
  cases hl
  have hstatus : ([1], status) = (([1], 180) : Bytes × UInt16) ∨
      ([1], status) = (([4], 486) : Bytes × UInt16) := by
    simpa [Life.record, Life.start] using hmem
  rcases hstatus with hstatus | hstatus
  · cases hstatus
    exact absurd hfinal (by decide)
  · cases hstatus

end NixiSbc.InviteTxMemory

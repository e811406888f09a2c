import NixiSbc.ClientTx
import Mathlib.Algebra.BigOperators.Group.Finset.Basic
import Mathlib.Algebra.Order.Group.Nat
import Mathlib.Tactic.Ring

namespace NixiSbc.ClientTxSchedule

open ByteWords Stun RawSip KeyedTable ClientTx
open B2bua (Transport)

/-- What can happen to the cache, each with its arguments and the time of the
call. -/
inductive Op
  | recordSent (now : Nat) (what : List Char) (raw : Bytes) (dest : SocketAddr)
      (transport : Transport) (replyTx : Option Nat)
  | answeredParts (branch cseqMethod : List Char) (status : UInt16)
  | due (now : Nat)

def step (U : Lowering) (cache : Cache) : Op → Cache
  | .recordSent now what raw dest transport replyTx =>
      (recordSent U cache now what raw dest transport replyTx).2
  | .answeredParts branch cseqMethod status => (answeredParts cache branch cseqMethod status).2
  | .due now => (due cache now).2

/-- The operation records a request under this key. -/
def records (U : Lowering) (cache : Cache) (k : List Char) : Op → Bool
  | .recordSent now what raw dest transport replyTx =>
      (recordSent U cache now what raw dest transport replyTx).1 = some k
  | _ => false

/-- The copies of the entry under this key that the operation hands out, with
the time. -/
def copiesIn (cache : Cache) (k : List Char) : Op → List (Nat × DueRequest)
  | .due now =>
      ((due cache now).1.1.filterMap fun p => if p.1 = k then some p.2 else none).map (now, ·)
  | _ => []

/-- The copies of the request recorded last under this key: those until
another one takes its place. -/
def copiesOf (U : Lowering) (k : List Char) : Cache → List Op → List (Nat × DueRequest)
  | _, [] => []
  | cache, op :: ops =>
      if records U cache k op then []
      else copiesIn cache k op ++ copiesOf U k (step U cache op) ops

/-- The interval before the copy that follows `n` others. -/
def intervalAfter (invite : Bool) (n : Nat) : Nat :=
  if invite then timerT1 * 2 ^ n else min (timerT1 * 2 ^ n) timerT2

/-- The earliest time of the `n`-th copy, from the send on. -/
def scheduled (invite : Bool) (n : Nat) : Nat := ∑ i ∈ Finset.range n, intervalAfter invite i

theorem scheduled_succ (invite : Bool) (n : Nat) :
    scheduled invite (n + 1) = scheduled invite n + intervalAfter invite n :=
  Finset.sum_range_succ _ n

theorem scheduled_invite (n : Nat) : scheduled true n = timerT1 * (2 ^ n - 1) := by
  induction n with
  | zero => rfl
  | succ n ih =>
      have hpos : 1 ≤ 2 ^ n := Nat.one_le_two_pow
      rw [scheduled_succ, ih]
      change timerT1 * (2 ^ n - 1) + timerT1 * 2 ^ n = _
      rw [← Nat.mul_add]
      congr 1
      omega

/-- An entry of a request sent at `sent`, after `n` copies. -/
structure OnSchedule (sent : Nat) (raw : Bytes) (invite : Bool) (n : Nat) (tx : Tx) : Prop where
  raw_eq : tx.raw = raw
  isInvite : tx.isInvite = invite
  giveUpAt : tx.giveUpAt = sent + transactionTimeout
  interval : tx.interval = intervalAfter invite n
  nextAt : sent + scheduled invite (n + 1) ≤ tx.nextAt

theorem OnSchedule.nextInterval {sent n : Nat} {raw : Bytes} {invite : Bool} {tx : Tx}
    (h : OnSchedule sent raw invite n tx) : nextInterval tx = intervalAfter invite (n + 1) := by
  rw [ClientTx.nextInterval, h.isInvite, h.interval]
  cases invite with
  | true =>
      change timerT1 * 2 ^ n * 2 = timerT1 * 2 ^ (n + 1)
      ring
  | false =>
      change min (min (timerT1 * 2 ^ n) timerT2 * 2) timerT2 = min (timerT1 * 2 ^ (n + 1)) timerT2
      have hpow : timerT1 * 2 ^ (n + 1) = timerT1 * 2 ^ n * 2 := by ring
      rw [hpow]
      omega

/-- The entry under the key, if it is there, is on its schedule. -/
def Tracks (sent : Nat) (raw : Bytes) (invite : Bool) (n : Nat) (k : List Char) (cache : Cache) :
    Prop :=
  ∀ tx, cache.lookup k = some tx → OnSchedule sent raw invite n tx

/-- The entry under the key is left alone or dropped. -/
def KeptOrDropped (k : List Char) (cache cache' : Cache) : Prop :=
  cache'.lookup k = cache.lookup k ∨ cache'.lookup k = none

theorem KeptOrDropped.trans {k : List Char} {a b c : Cache} (h : KeptOrDropped k a b)
    (h' : KeptOrDropped k b c) : KeptOrDropped k a c := by
  rcases h' with h' | h'
  · rw [KeptOrDropped, h']
    exact h
  · exact .inr h'

theorem keptOrDropped_erase (k k' : List Char) (cache : Cache) :
    KeptOrDropped k cache (cache.erase k') := by
  by_cases hk : k = k'
  · subst hk
    exact .inr (AList.lookup_erase k cache)
  · exact .inl (AList.lookup_erase_ne hk)

theorem keptOrDropped_makeRoom (k : List Char) (cache : Cache) (now : Nat) :
    KeptOrDropped k cache (makeRoom cache now) := by
  rw [makeRoom]
  split
  next =>
    rw [KeptOrDropped, lookup_sweep]
    cases cache.lookup k with
    | none => exact .inl rfl
    | some tx =>
        change notExpired now k tx = some tx ∨ notExpired now k tx = none
        rw [notExpired]
        split
        next => exact .inl rfl
        next => exact .inr rfl
  next => exact .inl rfl

theorem keptOrDropped_afterCancel (k : List Char) (cache : Cache) (branch method : List Char) :
    KeptOrDropped k cache (afterCancel cache branch method) := by
  rw [afterCancel]
  split
  next => exact keptOrDropped_erase ..
  next => exact .inl rfl

/-- What recording does: nothing, or room is made for a request that is then
refused or inserted with the timers of a new one. -/
theorem recordSent_cases (U : Lowering) (cache : Cache) (now : Nat) (what : List Char) (raw : Bytes)
    (dest : SocketAddr) (transport : Transport) (replyTx : Option Nat) :
    (tracked U raw transport = none ∧
      recordSent U cache now what raw dest transport replyTx = (none, cache)) ∨
    ∃ branch method, tracked U raw transport = some (branch, method) ∧
      (recordSent U cache now what raw dest transport replyTx =
          (none, makeRoom (afterCancel cache branch method) now) ∨
        recordSent U cache now what raw dest transport replyTx =
          (some (key branch method), (makeRoom (afterCancel cache branch method) now).insert
            (key branch method) ⟨raw, dest, transport, method = "INVITE".toList, now + timerT1,
              timerT1, now + transactionTimeout, 0, replyTx, what⟩)) := by
  cases ht : tracked U raw transport with
  | none => exact .inl ⟨rfl, by rw [recordSent, ht]⟩
  | some p =>
      obtain ⟨branch, method⟩ := p
      refine .inr ⟨branch, method, rfl, ?_⟩
      simp only [recordSent, ht]
      split
      next => exact .inl rfl
      next => exact .inr rfl

/-- An operation other than a poll never touches an entry, but for dropping it
or putting another request in its place. -/
theorem keptOrDropped_step (U : Lowering) (cache : Cache) (k : List Char) (op : Op)
    (hrec : records U cache k op = false) (hpoll : ∀ now, op ≠ .due now) :
    KeptOrDropped k cache (step U cache op) := by
  cases op with
  | due now => exact absurd rfl (hpoll now)
  | answeredParts branch cseqMethod status =>
      simp only [step, answeredParts]
      split
      next =>
        split
        next => exact keptOrDropped_erase ..
        next => exact .inl rfl
      next => exact .inl rfl
  | recordSent now what raw dest transport replyTx =>
      have hroom (branch method : List Char) :
          KeptOrDropped k cache (makeRoom (afterCancel cache branch method) now) :=
        (keptOrDropped_afterCancel ..).trans (keptOrDropped_makeRoom ..)
      rcases recordSent_cases U cache now what raw dest transport replyTx with
        ⟨-, h⟩ | ⟨branch, method, -, h | h⟩
      · rw [step, h]
        exact .inl rfl
      · rw [step, h]
        exact hroom branch method
      · rw [records, h, decide_eq_false_iff_not] at hrec
        have hne : k ≠ key branch method := fun he => hrec (by rw [he])
        rw [step, h]
        refine (hroom branch method).trans (.inl ?_)
        exact AList.lookup_insert_ne hne

theorem Tracks.of_keptOrDropped {sent n : Nat} {raw : Bytes} {invite : Bool} {k : List Char}
    {cache cache' : Cache} (h : Tracks sent raw invite n k cache)
    (hk : KeptOrDropped k cache cache') : Tracks sent raw invite n k cache' := by
  intro tx htx
  rcases hk with hk | hk
  · exact h tx (hk ▸ htx)
  · rw [hk] at htx
    cases htx

theorem copiesIn_due (cache : Cache) (k : List Char) (now : Nat) :
    copiesIn cache k (.due now) = (((cache.lookup k).bind (copyOf now k)).toList).map (now, ·) := by
  rw [copiesIn]
  change ((collect (copyOf now) cache).filterMap _).map _ = _
  rw [collect_at]

/-- A poll hands out nothing and leaves the schedule, or one copy that is due,
after which the next interval begins. -/
theorem poll_cases {sent n : Nat} {raw : Bytes} {invite : Bool} {k : List Char} {cache : Cache}
    (h : Tracks sent raw invite n k cache) (now : Nat) :
    (copiesIn cache k (.due now) = [] ∧ Tracks sent raw invite n k (due cache now).2) ∨
    ∃ c, copiesIn cache k (.due now) = [(now, c)] ∧ c.raw = raw ∧
      sent + scheduled invite (n + 1) ≤ now ∧ now < sent + transactionTimeout ∧
      Tracks sent raw invite (n + 1) k (due cache now).2 := by
  rw [copiesIn_due]
  have hlookup : (due cache now).2.lookup k = (cache.lookup k).bind (visit now k) := lookup_sweep ..
  cases htx : cache.lookup k with
  | none =>
      rw [htx] at hlookup
      refine .inl ⟨rfl, fun tx h => ?_⟩
      rw [hlookup] at h
      cases h
  | some tx =>
      rw [htx] at hlookup
      change (due cache now).2.lookup k = visit now k tx at hlookup
      change (_ = [] ∧ _) ∨ _
      obtain hs := h tx htx
      simp only [Option.bind_some, copyOf]
      rw [visit] at hlookup
      split at hlookup
      next hexpired =>
        rw [if_pos hexpired]
        refine .inl ⟨rfl, fun tx' h' => ?_⟩
        rw [hlookup] at h'
        cases h'
      next hlive =>
        rw [if_neg hlive]
        split at hlookup
        next hdue =>
          rw [if_pos hdue]
          refine .inr ⟨_, rfl, hs.raw_eq, hs.nextAt.trans hdue, ?_, fun tx' h' => ?_⟩
          · rw [← hs.giveUpAt]
            exact Nat.lt_of_not_le hlive
          · rw [hlookup] at h'
            cases h'
            refine ⟨hs.raw_eq, hs.isInvite, hs.giveUpAt, hs.nextInterval, ?_⟩
            change sent + scheduled invite (n + 1 + 1) ≤ now + ClientTx.nextInterval tx
            rw [hs.nextInterval, scheduled_succ, ← Nat.add_assoc]
            exact Nat.add_le_add_right (hs.nextAt.trans hdue) _
        next hlater =>
          rw [if_neg hlater]
          refine .inl ⟨rfl, fun tx' h' => ?_⟩
          rw [hlookup] at h'
          cases h'
          exact hs

/-- A copy is what was sent, no earlier than its place in the schedule and
before the transaction times out. -/
structure InTime (sent : Nat) (raw : Bytes) (invite : Bool) (n : Nat) (c : Nat × DueRequest) :
    Prop where
  raw_eq : c.2.raw = raw
  after : sent + scheduled invite n ≤ c.1
  before : c.1 < sent + transactionTimeout

theorem step_cases {U : Lowering} {sent n : Nat} {raw : Bytes} {invite : Bool} {k : List Char}
    {cache : Cache} (h : Tracks sent raw invite n k cache) (op : Op)
    (hrec : records U cache k op = false) :
    (copiesIn cache k op = [] ∧ Tracks sent raw invite n k (step U cache op)) ∨
    ∃ c, copiesIn cache k op = [c] ∧ InTime sent raw invite (n + 1) c ∧
      Tracks sent raw invite (n + 1) k (step U cache op) := by
  by_cases hpoll : ∃ now, op = .due now
  · obtain ⟨now, rfl⟩ := hpoll
    rcases poll_cases h now with hnone | ⟨c, hc, hraw, hafter, hbefore, hnext⟩
    · exact .inl hnone
    · exact .inr ⟨(now, c), hc, ⟨hraw, hafter, hbefore⟩, hnext⟩
  · rw [not_exists] at hpoll
    refine .inl ⟨?_, h.of_keptOrDropped (keptOrDropped_step U cache k op hrec hpoll)⟩
    cases op with
    | due now => exact absurd rfl (hpoll now)
    | _ => rfl

theorem copiesOf_inTime (U : Lowering) {sent n : Nat} {raw : Bytes} {invite : Bool} {k : List Char}
    {cache : Cache} (h : Tracks sent raw invite n k cache) (ops : List Op) (i : Nat)
    (c : Nat × DueRequest) (hc : (copiesOf U k cache ops)[i]? = some c) :
    InTime sent raw invite (n + i + 1) c := by
  induction ops generalizing cache n i with
  | nil => cases hc
  | cons op ops ih =>
      rw [copiesOf] at hc
      split at hc
      next => cases hc
      next hrec =>
        rcases step_cases h op (Bool.not_eq_true _ ▸ hrec) with ⟨hnone, hnext⟩ | ⟨c', hc', hin, hnext⟩
        · rw [hnone, List.nil_append] at hc
          exact ih hnext i hc
        · rw [hc', List.singleton_append] at hc
          cases i with
          | zero =>
              cases hc
              exact hin
          | succ i =>
              have := ih hnext i hc
              rwa [show n + 1 + i + 1 = n + (i + 1) + 1 by omega] at this

theorem copiesOf_absent (U : Lowering) {k : List Char} {cache : Cache} (h : cache.lookup k = none)
    (ops : List Op) : copiesOf U k cache ops = [] := by
  induction ops generalizing cache with
  | nil => rfl
  | cons op ops ih =>
      rw [copiesOf]
      split
      next => rfl
      next hrec =>
        have hnone : copiesIn cache k op = [] ∧ (step U cache op).lookup k = none := by
          by_cases hpoll : ∃ now, op = .due now
          · obtain ⟨now, rfl⟩ := hpoll
            rw [copiesIn_due, h]
            refine ⟨rfl, ?_⟩
            change (sweep (visit now) cache).lookup k = none
            rw [lookup_sweep, h]
            rfl
          · rw [not_exists] at hpoll
            constructor
            · cases op with
              | due now => exact absurd rfl (hpoll now)
              | _ => rfl
            · rcases keptOrDropped_step U cache k op (Bool.not_eq_true _ ▸ hrec) hpoll with hk | hk
              · exact hk.trans h
              · exact hk
        rw [hnone.1, ih hnone.2]
        rfl

/-- The operation ends the transaction of a request under this key: an answer,
final unless the request is an INVITE, or the CANCEL of the INVITE. -/
def Stops (U : Lowering) (invite : Bool) (k : List Char) : Op → Prop
  | .answeredParts branch cseqMethod status =>
      key branch cseqMethod = k ∧ (invite = true ∨ status ≥ 200)
  | .recordSent _ _ raw _ transport _ =>
      ∃ branch, tracked U raw transport = some (branch, "CANCEL".toList) ∧
        key branch "INVITE".toList = k
  | .due _ => False

theorem lookup_of_stops {U : Lowering} {sent n : Nat} {raw : Bytes} {invite : Bool} {k : List Char}
    {cache : Cache} (h : Tracks sent raw invite n k cache) {op : Op} (hstop : Stops U invite k op)
    (hrec : records U cache k op = false) : (step U cache op).lookup k = none := by
  cases op with
  | due now => exact hstop.elim
  | answeredParts branch cseqMethod status =>
      obtain ⟨rfl, hfinal⟩ := hstop
      simp only [step, answeredParts]
      split
      next tx htx =>
        rw [if_pos (by rwa [(h tx htx).isInvite])]
        exact AList.lookup_erase ..
      next hnone => exact hnone
  | recordSent now what raw dest transport replyTx =>
      obtain ⟨branch, ht, rfl⟩ := hstop
      have hroom : (makeRoom (afterCancel cache branch "CANCEL".toList) now).lookup
          (key branch "INVITE".toList) = none := by
        have herase : (afterCancel cache branch "CANCEL".toList).lookup
            (key branch "INVITE".toList) = none := AList.lookup_erase ..
        rcases keptOrDropped_makeRoom (key branch "INVITE".toList)
          (afterCancel cache branch "CANCEL".toList) now with hk | hk
        · exact hk.trans herase
        · exact hk
      rcases recordSent_cases U cache now what raw dest transport replyTx with
        ⟨hno, -⟩ | ⟨branch', method, ht', h | h⟩
      · rw [hno] at ht
        cases ht
      · rw [ht] at ht'
        cases ht'
        rw [step, h]
        exact hroom
      · rw [ht] at ht'
        cases ht'
        rw [records, h, decide_eq_false_iff_not] at hrec
        have hne : key branch "INVITE".toList ≠ key branch "CANCEL".toList := fun he =>
          hrec (by rw [he])
        rw [step, h]
        exact (AList.lookup_insert_ne hne).trans hroom

/-- Nothing is handed out after an operation that ends the transaction. -/
theorem copiesOf_stopped {U : Lowering} {sent n : Nat} {raw : Bytes} {invite : Bool} {k : List Char}
    {cache : Cache} (h : Tracks sent raw invite n k cache) (before after : List Op) {op : Op}
    (hstop : Stops U invite k op) :
    copiesOf U k cache (before ++ op :: after) = copiesOf U k cache before := by
  induction before generalizing cache n with
  | nil =>
      rw [List.nil_append, copiesOf, copiesOf]
      split
      next => rfl
      next hrec =>
        rw [copiesOf_absent U (lookup_of_stops h hstop (Bool.not_eq_true _ ▸ hrec)), List.append_nil]
        cases op with
        | due now => exact hstop.elim
        | _ => rfl
  | cons op' before ih =>
      rw [List.cons_append, copiesOf, copiesOf]
      split
      next => rfl
      next hrec =>
        congr 1
        rcases step_cases h op' (Bool.not_eq_true _ ▸ hrec) with ⟨-, hnext⟩ | ⟨-, -, -, hnext⟩
        · exact ih hnext
        · exact ih hnext

theorem tracks_recorded {U : Lowering} {cache cache' : Cache} {sent : Nat} {what : List Char}
    {raw : Bytes} {dest : SocketAddr} {replyTx : Option Nat} {branch method k : List Char}
    (hrec : recordSent U cache sent what raw dest .udp replyTx = (some k, cache'))
    (ht : tracked U raw .udp = some (branch, method)) :
    Tracks sent raw (method = "INVITE".toList) 0 k cache' := by
  rcases recordSent_cases U cache sent what raw dest .udp replyTx with
    ⟨-, h⟩ | ⟨branch', method', ht', h | h⟩
  · rw [hrec] at h
    cases h
  · rw [hrec] at h
    cases h
  · rw [ht] at ht'
    cases ht'
    rw [hrec] at h
    cases h
    intro tx htx
    rw [AList.lookup_insert] at htx
    cases htx
    refine ⟨rfl, rfl, rfl, ?_, ?_⟩
    · cases decide (method = "INVITE".toList) with
      | true => rfl
      | false => rfl
    · have hone (invite : Bool) : scheduled invite 1 = timerT1 := by
        cases invite with
        | true => rfl
        | false => rfl
      rw [hone]

/-- A request that was recorded is resent as it was, each copy no earlier than
the doubling intervals allow and before the transaction times out, a bounded
number of times, and not after it was answered or cancelled. -/
theorem client_retransmission_schedule (U : Lowering) (cache cache' : Cache) (sent : Nat)
    (what : List Char) (raw : Bytes) (dest : SocketAddr) (replyTx : Option Nat)
    (branch method k : List Char) (ht : tracked U raw .udp = some (branch, method))
    (hrec : recordSent U cache sent what raw dest .udp replyTx = (some k, cache')) (ops : List Op) :
    (∀ i c, (copiesOf U k cache' ops)[i]? = some c →
      c.2.raw = raw ∧ c.1 < sent + transactionTimeout ∧
      sent + (if method = "INVITE".toList then timerT1 * (2 ^ (i + 1) - 1)
        else ∑ j ∈ Finset.range (i + 1), min (timerT1 * 2 ^ j) timerT2) ≤ c.1) ∧
    (copiesOf U k cache' ops).length ≤ (if method = "INVITE".toList then 6 else 10) ∧
    (∀ before op after, ops = before ++ op :: after → Stops U (method = "INVITE".toList) k op →
      copiesOf U k cache' ops = copiesOf U k cache' before) := by
  have htracks := tracks_recorded hrec ht
  have hin := copiesOf_inTime U htracks ops
  refine ⟨fun i c hc => ?_, ?_, ?_⟩
  · have h := hin i c hc
    refine ⟨h.raw_eq, h.before, ?_⟩
    have hafter := h.after
    rw [Nat.zero_add] at hafter
    split
    next hm =>
      rw [decide_eq_true hm, scheduled_invite] at hafter
      exact hafter
    next hm =>
      rw [decide_eq_false hm] at hafter
      exact hafter
  · by_contra hmore
    rw [not_le] at hmore
    have h := hin _ _ (List.getElem?_eq_getElem hmore)
    have hlate : transactionTimeout ≤
        scheduled (method = "INVITE".toList) (0 + (if method = "INVITE".toList then 6 else 10) + 1) := by
      split
      next hm =>
        rw [decide_eq_true hm]
        decide
      next hm =>
        rw [decide_eq_false hm]
        decide
    exact absurd h.before (Nat.not_lt.mpr ((Nat.add_le_add_left hlate sent).trans h.after))
  · rintro before op after rfl hstop
    exact copiesOf_stopped htracks before after hstop

def sampleInvite : List Char :=
  "INVITE sip:b SIP/2.0\r\n".toList ++ "Via: SIP/2.0/UDP s;branch=z9hG4bK1\r\n\r\n".toList

theorem client_retransmission_sample :
    let k := key "z9hG4bK1".toList "INVITE".toList
    let sent := (recordSent asciiOnly ∅ 0 [] (Utf8.encode sampleInvite)
      (NetAddr.ofOctets 192 0 2 2 5060) .udp none).2
    (copiesOf asciiOnly k sent
      [.due 499, .due 500, .due 9000, .due 9999, .due 11000, .due 31999]).map Prod.fst =
        [500, 9000, 11000, 31999] ∧
    copiesOf asciiOnly k sent
      [.due 500, .answeredParts "z9hG4bK1".toList "invite".toList 100, .due 9000] =
        copiesOf asciiOnly k sent [.due 500] := by
  have h := client_retransmission_schedule asciiOnly ∅ _ 0 [] (Utf8.encode sampleInvite)
    (NetAddr.ofOctets 192 0 2 2 5060) none "z9hG4bK1".toList "INVITE".toList
    (key "z9hG4bK1".toList "INVITE".toList) (by decide) rfl
    [.due 500, .answeredParts "z9hG4bK1".toList "invite".toList 100, .due 9000]
  exact ⟨by decide, h.2.2 [.due 500] _ [.due 9000] rfl ⟨by decide, .inl (by decide)⟩⟩

end NixiSbc.ClientTxSchedule

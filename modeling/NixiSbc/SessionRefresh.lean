import NixiSbc.B2bua
import NixiSbc.StateRuns

namespace NixiSbc.SessionRefresh

open ByteWords Stun RawSip TextFields SipBuilder B2bua StateRuns

/-- What can happen to the session timer of a call, each with its arguments. -/
inductive Op
  | arm (now : Nat) (intervalSecs minSe : UInt32)
  | tick (now : Nat) (branch localIp : List Char) (localPort : UInt16)
  | complete (cseq : UInt32) (branch localIp : List Char) (localPort : UInt16)
  | fail (now delayMs : Nat) (cseq : UInt32) (status : UInt16) (minSe422 : Option UInt32)
      (responseTo : List Char)
  | duplicate (cseq : UInt32) (status : UInt16) (responseTo branch localIp : List Char)
      (localPort : UInt16)

/-- The statuses by which the peer says that it does not do refreshes. -/
def unsupported (status : UInt16) : Bool := status = 405 ∨ status = 501 ∨ status = 420

/-- A 422 that asks for more than the interval. -/
def raises (call : B2buaCall) (status : UInt16) (minSe422 : Option UInt32) : Bool :=
  status = 422 ∧ call.sessionTimer.any fun st => minSe422.any (st.intervalSecs < ·)

/-- What an observer knows since the timer was armed: the refresh that is not
answered, else the last one, and the failures since the last success or raised
interval. -/
structure Watch where
  pending : Option (UInt32 × List Char)
  answered : Option (UInt32 × List Char)
  failures : Nat

def Watch.start : Watch := ⟨none, none, 0⟩

section

variable (U : Lowering) (V : Uppering)

def stepCall (call : B2buaCall) : Op → B2buaCall
  | .arm now intervalSecs minSe => setSessionTimer call now intervalSecs minSe
  | .tick now branch localIp localPort => (refreshCall U V now branch localIp localPort call).2
  | .complete cseq branch localIp localPort =>
      (completeSessionRefresh V call cseq branch localIp localPort).2
  | .fail now delayMs cseq status minSe422 responseTo =>
      (failSessionRefresh U call now delayMs cseq status minSe422 responseTo).2
  | .duplicate .. => call

/-- An answer counts for the refresh that it names. -/
def Watch.answer (w : Watch) (cseq : UInt32) (f : List Char → Watch) : Watch :=
  match w.pending with
  | some (n, raw) => if n = cseq then f raw else w
  | none => w

def note (call : B2buaCall) (w : Watch) : Op → Watch
  | .arm .. => .start
  | .tick now branch localIp localPort =>
      match (refreshCall U V now branch localIp localPort call).1 with
      | some out => { w with pending := some (nextOutboundCseq U call, out.raw), answered := none }
      | none => w
  | .complete cseq _ _ _ => w.answer cseq fun raw => ⟨none, some (cseq, raw), 0⟩
  | .fail _ _ cseq status minSe422 _ => w.answer cseq fun raw =>
      if unsupported status then .start
      else
        ⟨none, some (cseq, raw),
          if status = 491 then w.failures
          else if raises call status minSe422 then 0 else w.failures + 1⟩
  | .duplicate .. => w

/-- The call beside its observer. -/
def observed (s : B2buaCall × Watch) (op : Op) : B2buaCall × Watch :=
  (stepCall U V s.1 op, note U V s.1 s.2 op)

/-- The pending number and the pending text go together. -/
def Paired (call : B2buaCall) : Prop :=
  ∀ st ∈ call.sessionTimer, st.pendingRefreshCseq.isSome = st.pendingRefreshRaw.isSome

/-- The interval and the smallest one are not lowered. -/
def NotLowered (call call' : B2buaCall) : Prop :=
  ∀ st ∈ call.sessionTimer, ∀ st' ∈ call'.sessionTimer,
    st.intervalSecs ≤ st'.intervalSecs ∧ st.minSe ≤ st'.minSe

/-- Which refusals end the dialog, with the failures before; the counter has
32 bits. -/
def Gone (call : B2buaCall) (failures : Nat) (status : UInt16) (minSe422 : Option UInt32) : Prop :=
  status ≠ 491 ∧ unsupported status = false ∧
    (status = 408 ∨ status = 481 ∨
      3 ≤ (if raises call status minSe422 then 0 else failures + 1) % 2 ^ 32)

/-- What is promised of each operation: a refresh is sent when none is pending,
an answer is consumed exactly when it names the pending one, and the ACK of a
final answer is there to be sent again. -/
def Regular (s : B2buaCall × Watch) (op : Op) : Prop :=
  Paired s.1 ∧
  match op with
  | .arm .. => True
  | .tick now branch localIp localPort =>
      NotLowered s.1 (stepCall U V s.1 op) ∧
      ((refreshCall U V now branch localIp localPort s.1).1.isSome → s.2.pending = none)
  | .complete cseq branch localIp localPort =>
      NotLowered s.1 (stepCall U V s.1 op) ∧
      ((completeSessionRefresh V s.1 cseq branch localIp localPort).1.isSome ↔
        ∃ raw, s.2.pending = some (cseq, raw)) ∧
      ∀ out, (completeSessionRefresh V s.1 cseq branch localIp localPort).1 = some out →
        ∃ d, dialogInfoTowardCallee s.1 localIp localPort = some d ∧
          out.raw = buildAckFor2xx V branch d cseq
  | .fail now delayMs cseq status minSe422 responseTo =>
      NotLowered s.1 (stepCall U V s.1 op) ∧
      ((failSessionRefresh U s.1 now delayMs cseq status minSe422 responseTo).1.isSome ↔
        ∃ raw, s.2.pending = some (cseq, raw)) ∧
      ∀ raw f, s.2.pending = some (cseq, raw) →
        (failSessionRefresh U s.1 now delayMs cseq status minSe422 responseTo).1 = some f →
        f.ack = buildAckForNon2xx U raw responseTo ∧
        (f.dialogGone = true ↔ Gone s.1 s.2.failures status minSe422)
  | .duplicate cseq status responseTo branch localIp localPort =>
      ∀ raw, s.2.answered = some (cseq, raw) → 200 ≤ status →
        ∃ ack dest transport replyTx,
          refreshDuplicateAck U V s.1 cseq status responseTo branch localIp localPort =
            some (ack, dest, transport, replyTx) ∧
          (status ≤ 299 → ∃ d, dialogInfoTowardCallee s.1 localIp localPort = some d ∧
            ack = some (buildAckFor2xx V branch d cseq)) ∧
          (300 ≤ status → ack = buildAckForNon2xx U raw responseTo)

end

/-- A request can be addressed to the callee. -/
def Addressable (call : B2buaCall) : Prop :=
  ∃ out fromRaw toRaw requestUri, call.outbound = some out ∧ out.fromRaw = some fromRaw ∧
    out.toRaw = some toRaw ∧
    (out.remoteTarget <|> call.calleeRequestUri <|>
      call.calleeDest.map fun d => "sip:".toList ++ NetAddr.showAddr d) = some requestUri

theorem addressable_iff {call : B2buaCall} (localIp : List Char) (localPort : UInt16) :
    Addressable call ↔ ∃ d, dialogInfoTowardCallee call localIp localPort = some d := by
  simp only [dialogInfoTowardCallee, Option.bind_eq_bind, Option.bind_eq_some_iff]
  constructor
  · rintro ⟨out, fromRaw, toRaw, requestUri, hout, hfrom, hto, huri⟩
    exact ⟨_, out, hout, fromRaw, hfrom, toRaw, hto, requestUri, huri, rfl⟩
  · rintro ⟨d, out, hout, fromRaw, hfrom, toRaw, hto, requestUri, huri, -⟩
    exact ⟨out, fromRaw, toRaw, requestUri, hout, hfrom, hto, huri⟩

theorem Addressable.setLegCseq {call : B2buaCall} (h : Addressable call) (n : UInt32)
    (timer : Option SessionTimerState) :
    Addressable { setLegCseq call n with sessionTimer := timer } := by
  obtain ⟨out, fromRaw, toRaw, requestUri, hout, hfrom, hto, huri⟩ := h
  refine ⟨{ out with cseq := n }, fromRaw, toRaw, requestUri, ?_, hfrom, hto, huri⟩
  simp only [B2bua.setLegCseq, hout, Option.map_some]

/-- What a visit of the refresh loop does: nothing, or it sends a re-INVITE,
which is pending from then on. -/
theorem refreshCall_cases (U : Lowering) (V : Uppering) (call : B2buaCall) (now : Nat)
    (branch localIp : List Char) (localPort : UInt16) :
    refreshCall U V now branch localIp localPort call = (none, call) ∨
    ∃ out st nextAt, call.sessionTimer = some st ∧ st.pendingRefreshCseq = none ∧
      call.calleeDest ≠ none ∧ Addressable call ∧
      refreshCall U V now branch localIp localPort call =
        (some out, { setLegCseq call (nextOutboundCseq U call) with
          sessionTimer := some { st with
            pendingRefreshCseq := some (nextOutboundCseq U call)
            pendingRefreshRaw := some out.raw
            lastRefresh := some (nextOutboundCseq U call, out.raw)
            nextRefreshAt := nextAt } }) := by
  rw [refreshCall]
  split
  next dest st d sdp _ hdest hst hd _ =>
    split
    next => exact .inl rfl
    next hdue =>
      rw [not_or, not_not] at hdue
      refine .inr ⟨_, st, _, hst, hdue.2, ?_, (addressable_iff localIp localPort).mpr ⟨d, hd⟩, rfl⟩
      rw [hdest]
      exact Option.some_ne_none dest
  next => exact .inl rfl

/-- The loop over the table treats every call by itself, as one tick of it. -/
theorem dueSessionRefreshes_at (U : Lowering) (V : Uppering)
    (calls : KeyedTable.Table (List Char) B2buaCall) (now : Nat) (branchFor : List Char → List Char)
    (localIp : List Char) (localPort : UInt16) (uuid : List Char) :
    let r := dueSessionRefreshes U V calls now branchFor localIp localPort
    r.1.filterMap (fun p => if p.1 = uuid then some p.2 else none) =
      ((calls.lookup uuid).bind fun call =>
        (refreshCall U V now (branchFor uuid) localIp localPort call).1).toList ∧
    r.2.lookup uuid = (calls.lookup uuid).map fun call =>
      stepCall U V call (.tick now (branchFor uuid) localIp localPort) := by
  simp only [dueSessionRefreshes]
  refine ⟨KeyedTable.collect_at _ calls uuid, ?_⟩
  rw [KeyedTable.lookup_sweep]
  cases calls.lookup uuid with
  | none => rfl
  | some call => rfl

/-- The timer holds what the observer knows. -/
structure TimerTracks (st : SessionTimerState) (w : Watch) : Prop where
  cseq : st.pendingRefreshCseq = w.pending.map Prod.fst
  raw : st.pendingRefreshRaw = w.pending.map Prod.snd
  failures : st.refreshFailures.toNat = w.failures % 2 ^ 32
  last : ∀ p, w.pending = some p ∨ w.answered = some p → st.lastRefresh = some p

/-- Nothing is pending without a timer, and what is pending or answered was
sent to a callee that can be addressed. -/
structure Tracks (s : B2buaCall × Watch) : Prop where
  off : s.1.sessionTimer = none → s.2.pending = none ∧ s.2.answered = none
  timer : ∀ st, s.1.sessionTimer = some st → TimerTracks st s.2
  callee : s.2.pending ≠ none ∨ s.2.answered ≠ none → s.1.calleeDest ≠ none ∧ Addressable s.1

theorem TimerTracks.pending_iff {st : SessionTimerState} {w : Watch} (h : TimerTracks st w)
    (cseq : UInt32) :
    st.pendingRefreshCseq = some cseq ↔ ∃ raw, w.pending = some (cseq, raw) := by
  rw [h.cseq, Option.map_eq_some_iff]
  constructor
  · rintro ⟨⟨n, raw⟩, hp, rfl⟩
    exact ⟨raw, hp⟩
  · rintro ⟨raw, hp⟩
    exact ⟨(cseq, raw), hp, rfl⟩

theorem Watch.answer_pending {w : Watch} {cseq : UInt32} {raw : List Char}
    (h : w.pending = some (cseq, raw)) (f : List Char → Watch) : w.answer cseq f = f raw := by
  simp only [Watch.answer, h, if_true]

theorem Watch.answer_other {w : Watch} {cseq : UInt32}
    (h : ¬ ∃ raw, w.pending = some (cseq, raw)) (f : List Char → Watch) : w.answer cseq f = w := by
  rw [Watch.answer]
  split
  next n raw hp =>
    rw [if_neg]
    rintro rfl
    exact h ⟨raw, hp⟩
  next => rfl

/-- The timer of a call with a pending refresh. -/
theorem Tracks.pending_timer {s : B2buaCall × Watch} (h : Tracks s) {cseq : UInt32} {raw : List Char}
    (hp : s.2.pending = some (cseq, raw)) :
    ∃ st dest, s.1.sessionTimer = some st ∧ st.pendingRefreshCseq = some cseq ∧
      st.pendingRefreshRaw = some raw ∧ st.lastRefresh = some (cseq, raw) ∧
      s.1.calleeDest = some dest ∧ Addressable s.1 := by
  obtain ⟨hdest, haddr⟩ := h.callee (.inl (by rw [hp]; exact Option.some_ne_none _))
  obtain ⟨dest, hdest⟩ := Option.ne_none_iff_exists'.mp hdest
  cases hst : s.1.sessionTimer with
  | none =>
      rw [(h.off hst).1] at hp
      cases hp
  | some st =>
      have ht := h.timer st hst
      refine ⟨st, dest, rfl, (ht.pending_iff cseq).mpr ⟨raw, hp⟩, ?_, ht.last _ (.inl hp), hdest, haddr⟩
      rw [ht.raw, hp]
      rfl

theorem Tracks.not_pending {s : B2buaCall × Watch} (h : Tracks s) {cseq : UInt32}
    (hp : ¬ ∃ raw, s.2.pending = some (cseq, raw)) (st : SessionTimerState)
    (hst : s.1.sessionTimer = some st) : st.pendingRefreshCseq ≠ some cseq :=
  ((h.timer st hst).pending_iff cseq).not.mpr hp

section

variable {U : Lowering} {V : Uppering} {s : B2buaCall × Watch} {cseq : UInt32}

theorem complete_other (h : Tracks s) (hp : ¬ ∃ raw, s.2.pending = some (cseq, raw))
    (branch localIp : List Char) (localPort : UInt16) :
    completeSessionRefresh V s.1 cseq branch localIp localPort = (none, s.1) := by
  rw [completeSessionRefresh]
  split
  next => rfl
  next st hst => rw [if_pos (h.not_pending hp st hst)]

theorem complete_pending (h : Tracks s) {raw : List Char} (hp : s.2.pending = some (cseq, raw))
    (branch localIp : List Char) (localPort : UInt16) :
    ∃ st d out, s.1.sessionTimer = some st ∧ dialogInfoTowardCallee s.1 localIp localPort = some d ∧
      out.raw = buildAckFor2xx V branch d cseq ∧
      completeSessionRefresh V s.1 cseq branch localIp localPort =
        (some out, { s.1 with sessionTimer := some { st with
          pendingRefreshCseq := none
          pendingRefreshRaw := none
          refreshFailures := 0 } }) := by
  obtain ⟨st, dest, hst, hcseq, -, -, hdest, haddr⟩ := h.pending_timer hp
  obtain ⟨d, hd⟩ := (addressable_iff localIp localPort).mp haddr
  refine ⟨st, d, ⟨buildAckFor2xx V branch d cseq, dest, s.1.calleeTransport, s.1.calleeReplyTx⟩, hst,
    hd, rfl, ?_⟩
  have hd' : dialogInfoTowardCallee { s.1 with sessionTimer := some { st with
      pendingRefreshCseq := none, pendingRefreshRaw := none, refreshFailures := 0 } }
      localIp localPort = some d := hd
  simp only [completeSessionRefresh, hst, hcseq, ne_eq, not_true_eq_false, if_false]
  rw [hd']
  refine Prod.ext ?_ rfl
  change (s.1.calleeDest.bind fun dest => some _) = _
  rw [hdest]
  rfl

theorem fail_other (h : Tracks s) (hp : ¬ ∃ raw, s.2.pending = some (cseq, raw)) (now delayMs : Nat)
    (status : UInt16) (minSe422 : Option UInt32) (responseTo : List Char) :
    failSessionRefresh U s.1 now delayMs cseq status minSe422 responseTo = (none, s.1) := by
  rw [failSessionRefresh]
  split
  next => rfl
  next st hst => rw [if_pos (h.not_pending hp st hst)]

/-- The timer after the pending refresh was refused, if it stays. -/
def refusedTimer (st : SessionTimerState) (now delayMs : Nat) (status : UInt16)
    (minSe422 : Option UInt32) : Option SessionTimerState :=
  let st := { st with pendingRefreshCseq := none, pendingRefreshRaw := none }
  if status = 491 then some { st with nextRefreshAt := now + delayMs }
  else if unsupported status then none
  else some (noteFailure st now status minSe422)

theorem refusedTimer_unsupported {status : UInt16} (h : unsupported status = true)
    {st : SessionTimerState} {now delayMs : Nat} {minSe422 : Option UInt32} :
    refusedTimer st now delayMs status minSe422 = none := by
  simp only [refusedTimer, h, if_true]
  rw [if_neg]
  rintro rfl
  cases h

theorem refusedTimer_ne_none {status : UInt16} (h : unsupported status = false)
    {st : SessionTimerState} {now delayMs : Nat} {minSe422 : Option UInt32} :
    refusedTimer st now delayMs status minSe422 ≠ none := by
  simp only [refusedTimer, h]
  split
  next => exact Option.some_ne_none _
  next => exact Option.some_ne_none _

theorem fail_pending (h : Tracks s) {raw : List Char} (hp : s.2.pending = some (cseq, raw))
    (now delayMs : Nat) (status : UInt16) (minSe422 : Option UInt32) (responseTo : List Char) :
    ∃ st f, s.1.sessionTimer = some st ∧ f.ack = buildAckForNon2xx U raw responseTo ∧
      (f.dialogGone = true ↔ status ≠ 491 ∧ unsupported status = false ∧
        (status = 408 ∨ status = 481 ∨
          (noteFailure st now status minSe422).refreshFailures ≥ maxRefreshFailures)) ∧
      failSessionRefresh U s.1 now delayMs cseq status minSe422 responseTo =
        (some f, { s.1 with sessionTimer := refusedTimer st now delayMs status minSe422 }) := by
  obtain ⟨st, dest, hst, hcseq, hraw, -, hdest, -⟩ := h.pending_timer hp
  have hunsupported : unsupported status = true ↔ status = 405 ∨ status = 501 ∨ status = 420 :=
    decide_eq_true_iff
  have hstart : failSessionRefresh U s.1 now delayMs cseq status minSe422 responseTo =
      if status = 491 then
        (some ⟨buildAckForNon2xx U raw responseTo, dest, s.1.calleeTransport, s.1.calleeReplyTx, false⟩,
          { s.1 with sessionTimer := refusedTimer st now delayMs status minSe422 })
      else if unsupported status = true then
        (some ⟨buildAckForNon2xx U raw responseTo, dest, s.1.calleeTransport, s.1.calleeReplyTx, false⟩,
          { s.1 with sessionTimer := refusedTimer st now delayMs status minSe422 })
      else
        (some ⟨buildAckForNon2xx U raw responseTo, dest, s.1.calleeTransport, s.1.calleeReplyTx,
            status = 408 ∨ status = 481 ∨
              (noteFailure st now status minSe422).refreshFailures ≥ maxRefreshFailures⟩,
          { s.1 with sessionTimer := refusedTimer st now delayMs status minSe422 }) := by
    simp only [failSessionRefresh, hst, hcseq, hraw, hdest, ne_eq, not_true_eq_false, if_false,
      refusedTimer, hunsupported]
    split
    next => rfl
    next =>
      split
      next => rfl
      next => rfl
  rw [hstart]
  by_cases hglare : status = 491
  · rw [if_pos hglare]
    exact ⟨st, _, hst, rfl, ⟨fun h => (by cases h), fun h => absurd hglare h.1⟩, rfl⟩
  · rw [if_neg hglare]
    by_cases hun : unsupported status = true
    · rw [if_pos hun]
      refine ⟨st, _, hst, rfl, ⟨fun h => (by cases h), fun h => ?_⟩, rfl⟩
      rw [hun] at h
      cases h.2.1
    · rw [if_neg hun]
      refine ⟨st, _, hst, rfl, ?_, rfl⟩
      rw [decide_eq_true_iff]
      exact ⟨fun h => ⟨hglare, Bool.not_eq_true _ ▸ hun, h⟩, fun h => h.2.2⟩

theorem noteFailure_failures {st : SessionTimerState} (hst : s.1.sessionTimer = some st)
    (ht : TimerTracks st s.2) (now : Nat) (status : UInt16) (minSe422 : Option UInt32) :
    (noteFailure st now status minSe422).refreshFailures.toNat =
      (if raises s.1 status minSe422 then 0 else s.2.failures + 1) % 2 ^ 32 := by
  have hraises : raises s.1 status minSe422 =
      decide (status = 422 ∧ minSe422.any (st.intervalSecs < ·) = true) := by
    simp only [raises, hst, Option.any_some]
  rw [hraises]
  change (if _ then _ else _ : UInt32).toNat = _
  split
  next => rfl
  next =>
    rw [UInt32.toNat_add, ht.failures]
    exact Nat.mod_add_mod _ _ _

theorem noteFailure_notLowered (st : SessionTimerState) (now : Nat) (status : UInt16)
    (minSe422 : Option UInt32) :
    st.intervalSecs ≤ (noteFailure st now status minSe422).intervalSecs ∧
      st.minSe ≤ (noteFailure st now status minSe422).minSe := by
  simp only [noteFailure]
  cases (if status = 422 then minSe422 else none) with
  | none => exact ⟨UInt32.le_refl _, UInt32.le_refl _⟩
  | some n => exact ⟨u32_le_max (.inl (UInt32.le_refl _)), u32_le_max (.inl (UInt32.le_refl _))⟩

theorem refusedTimer_notLowered {st st' : SessionTimerState} {now delayMs : Nat} {status : UInt16}
    {minSe422 : Option UInt32} (h : refusedTimer st now delayMs status minSe422 = some st') :
    st.intervalSecs ≤ st'.intervalSecs ∧ st.minSe ≤ st'.minSe := by
  simp only [refusedTimer] at h
  split at h
  next =>
    cases h
    exact ⟨UInt32.le_refl _, UInt32.le_refl _⟩
  next =>
    split at h
    next => cases h
    next =>
      cases h
      exact noteFailure_notLowered { st with pendingRefreshCseq := none, pendingRefreshRaw := none }
        now status minSe422

theorem notLowered_refl (call : B2buaCall) : NotLowered call call := by
  intro st hst st' hst'
  rw [Option.mem_def.mp hst] at hst'
  cases hst'
  exact ⟨UInt32.le_refl _, UInt32.le_refl _⟩

theorem Tracks.paired (h : Tracks s) : Paired s.1 := by
  intro st hst
  have ht := h.timer st hst
  rw [ht.cseq, ht.raw, Option.isSome_map, Option.isSome_map]

/-- The timer of a refused refresh agrees with the observer, if it stays. -/
theorem timerTracks_refused {st st' : SessionTimerState} (hst : s.1.sessionTimer = some st)
    (ht : TimerTracks st s.2) {raw : List Char} (hp : s.2.pending = some (cseq, raw))
    {now delayMs : Nat} {status : UInt16} {minSe422 : Option UInt32} (hun : unsupported status = false)
    (h : refusedTimer st now delayMs status minSe422 = some st') :
    TimerTracks st' ⟨none, some (cseq, raw), if status = 491 then s.2.failures
      else if raises s.1 status minSe422 then 0 else s.2.failures + 1⟩ := by
  have hlast := ht.last (cseq, raw) (.inl hp)
  have hanswered {p : UInt32 × List Char} : none = some p ∨ some (cseq, raw) = some p →
      st.lastRefresh = some p := by
    rintro (hp | hp)
    · cases hp
    · rw [← hp]
      exact hlast
  simp only [refusedTimer] at h
  split at h
  next hglare =>
    cases h
    rw [if_pos hglare]
    exact ⟨rfl, rfl, ht.failures, fun p => hanswered⟩
  next hglare =>
    rw [if_neg (by rw [hun]; decide)] at h
    cases h
    rw [if_neg hglare]
    exact ⟨rfl, rfl, noteFailure_failures hst ht now status minSe422, fun p => hanswered⟩

theorem tracks_idle {call : B2buaCall} (h : ∀ st, call.sessionTimer = some st → TimerTracks st .start) :
    Tracks (call, .start) where
  off := fun _ => ⟨rfl, rfl⟩
  timer := h
  callee := fun hp => by
    rcases hp with hp | hp
    · exact absurd rfl hp
    · exact absurd rfl hp

theorem tracks_tick (h : Tracks s) (now : Nat) (branch localIp : List Char) (localPort : UInt16) :
    Tracks (observed U V s (.tick now branch localIp localPort)) := by
  rcases refreshCall_cases U V s.1 now branch localIp localPort with
    hcase | ⟨out, st, nextAt, hst, hidle, hdest, haddr, hcase⟩
  · simp only [observed, stepCall, note, hcase]
    exact h
  · simp only [observed, stepCall, note, hcase]
    refine ⟨fun hoff => (by cases hoff), fun st' hst' => ?_, fun _ => ⟨hdest, haddr.setLegCseq _ _⟩⟩
    cases hst'
    refine ⟨rfl, rfl, (h.timer st hst).failures, fun p hp => ?_⟩
    rcases hp with hp | hp
    · exact hp
    · cases hp

theorem tracks_complete (h : Tracks s) (branch localIp : List Char) (localPort : UInt16) :
    Tracks (observed U V s (.complete cseq branch localIp localPort)) := by
  by_cases hp : ∃ raw, s.2.pending = some (cseq, raw)
  · obtain ⟨raw, hp⟩ := hp
    obtain ⟨st, d, out, hst, -, -, hcase⟩ := complete_pending (V := V) h hp branch localIp localPort
    have hcallee := h.callee (.inl (by rw [hp]; exact Option.some_ne_none _))
    simp only [observed, stepCall, note, hcase, Watch.answer_pending hp]
    refine ⟨fun hoff => (by cases hoff), fun st' hst' => ?_, fun _ => hcallee⟩
    cases hst'
    refine ⟨rfl, rfl, rfl, fun p hp' => ?_⟩
    rcases hp' with hp' | hp'
    · cases hp'
    · cases hp'
      exact (h.timer st hst).last _ (.inl hp)
  · simp only [observed, stepCall, note, complete_other h hp, Watch.answer_other hp]
    exact h

theorem tracks_fail (h : Tracks s) (now delayMs : Nat) (status : UInt16) (minSe422 : Option UInt32)
    (responseTo : List Char) :
    Tracks (observed U V s (.fail now delayMs cseq status minSe422 responseTo)) := by
  by_cases hp : ∃ raw, s.2.pending = some (cseq, raw)
  · obtain ⟨raw, hp⟩ := hp
    obtain ⟨st, f, hst, -, -, hcase⟩ := fail_pending (U := U) h hp now delayMs status minSe422
      responseTo
    have hcallee := h.callee (.inl (by rw [hp]; exact Option.some_ne_none _))
    simp only [observed, stepCall, note, hcase, Watch.answer_pending hp]
    cases hun : unsupported status with
    | true =>
        apply tracks_idle
        intro st' hst'
        rw [refusedTimer_unsupported hun] at hst'
        cases hst'
    | false =>
        refine ⟨fun hoff => ?_, fun st' hst' => ?_, fun _ => hcallee⟩
        · exact absurd hoff (refusedTimer_ne_none hun)
        · exact timerTracks_refused hst (h.timer st hst) hp hun hst'
  · simp only [observed, stepCall, note, fail_other h hp, Watch.answer_other hp]
    exact h

theorem tracks_observed (h : Tracks s) (op : Op) : Tracks (observed U V s op) := by
  cases op with
  | arm now intervalSecs minSe =>
      apply tracks_idle
      intro st hst
      cases hst
      exact ⟨rfl, rfl, rfl, fun p hp => by rcases hp with hp | hp <;> cases hp⟩
  | tick now branch localIp localPort => exact tracks_tick h now branch localIp localPort
  | complete cseq branch localIp localPort => exact tracks_complete h branch localIp localPort
  | fail now delayMs cseq status minSe422 responseTo =>
      exact tracks_fail h now delayMs status minSe422 responseTo
  | duplicate => exact h

/-- The counter reaches the limit when the failures do, up to 32 bits. -/
theorem gone_iff {st : SessionTimerState} (hst : s.1.sessionTimer = some st)
    (ht : TimerTracks st s.2) (now : Nat) (status : UInt16) (minSe422 : Option UInt32) :
    Gone s.1 s.2.failures status minSe422 ↔ status ≠ 491 ∧ unsupported status = false ∧
      (status = 408 ∨ status = 481 ∨
        (noteFailure st now status minSe422).refreshFailures ≥ maxRefreshFailures) := by
  rw [Gone, ← noteFailure_failures hst ht now, ge_iff_le, UInt32.le_iff_toNat_le]
  rfl

theorem notLowered_of_timer {call call' : B2buaCall} {st : SessionTimerState}
    (hst : call.sessionTimer = some st)
    (h : ∀ st', call'.sessionTimer = some st' →
      st.intervalSecs ≤ st'.intervalSecs ∧ st.minSe ≤ st'.minSe) : NotLowered call call' := by
  intro st₀ hst₀ st' hst'
  rw [hst] at hst₀
  cases hst₀
  exact h st' hst'

theorem regular_tick (h : Tracks s) (now : Nat) (branch localIp : List Char) (localPort : UInt16) :
    Regular U V s (.tick now branch localIp localPort) := by
  refine ⟨h.paired, ?_⟩
  rcases refreshCall_cases U V s.1 now branch localIp localPort with
    hcase | ⟨out, st, nextAt, hst, hidle, -, -, hcase⟩
  · simp only [stepCall, hcase]
    exact ⟨notLowered_refl _, fun hsent => (by cases hsent)⟩
  · simp only [stepCall, hcase]
    constructor
    · refine notLowered_of_timer hst fun st' hst' => ?_
      cases hst'
      exact ⟨UInt32.le_refl _, UInt32.le_refl _⟩
    · intro _
      rw [(h.timer st hst).cseq, Option.map_eq_none_iff] at hidle
      exact hidle

theorem regular_complete (h : Tracks s) (branch localIp : List Char) (localPort : UInt16) :
    Regular U V s (.complete cseq branch localIp localPort) := by
  refine ⟨h.paired, ?_⟩
  by_cases hp : ∃ raw, s.2.pending = some (cseq, raw)
  · obtain ⟨raw, hp⟩ := hp
    obtain ⟨st, d, out, hst, hd, hout, hcase⟩ :=
      complete_pending (V := V) h hp branch localIp localPort
    simp only [stepCall, hcase]
    refine ⟨notLowered_of_timer hst fun st' hst' => ?_, ⟨fun _ => ⟨raw, hp⟩, fun _ => rfl⟩, ?_⟩
    · cases hst'
      exact ⟨UInt32.le_refl _, UInt32.le_refl _⟩
    · intro out' hout'
      cases hout'
      exact ⟨d, hd, hout⟩
  · simp only [stepCall, complete_other h hp]
    exact ⟨notLowered_refl _, ⟨fun hsome => (by cases hsome), fun hsome => absurd hsome hp⟩,
      fun out hout => (by cases hout)⟩

theorem regular_fail (h : Tracks s) (now delayMs : Nat) (status : UInt16) (minSe422 : Option UInt32)
    (responseTo : List Char) :
    Regular U V s (.fail now delayMs cseq status minSe422 responseTo) := by
  refine ⟨h.paired, ?_⟩
  by_cases hp : ∃ raw, s.2.pending = some (cseq, raw)
  · obtain ⟨raw, hp⟩ := hp
    obtain ⟨st, f, hst, hack, hgone, hcase⟩ := fail_pending (U := U) h hp now delayMs status minSe422
      responseTo
    simp only [stepCall, hcase]
    refine ⟨notLowered_of_timer hst fun st' => refusedTimer_notLowered,
      ⟨fun _ => ⟨raw, hp⟩, fun _ => rfl⟩, ?_⟩
    intro raw' f' hp' hf'
    rw [hp] at hp'
    cases hp'
    cases hf'
    exact ⟨hack, hgone.trans (gone_iff hst (h.timer st hst) now status minSe422).symm⟩
  · simp only [stepCall, fail_other h hp]
    exact ⟨notLowered_refl _, ⟨fun hsome => (by cases hsome), fun hsome => absurd hsome hp⟩,
      fun raw f hraw => absurd ⟨raw, hraw⟩ hp⟩

theorem regular_duplicate (h : Tracks s) (status : UInt16) (responseTo branch localIp : List Char)
    (localPort : UInt16) :
    Regular U V s (.duplicate cseq status responseTo branch localIp localPort) := by
  refine ⟨h.paired, fun raw hraw hfinal => ?_⟩
  obtain ⟨hdest, haddr⟩ := h.callee (.inr (by rw [hraw]; exact Option.some_ne_none _))
  obtain ⟨dest, hdest⟩ := Option.ne_none_iff_exists'.mp hdest
  obtain ⟨d, hd⟩ := (addressable_iff localIp localPort).mp haddr
  cases hst : s.1.sessionTimer with
  | none =>
      rw [(h.off hst).2] at hraw
      cases hraw
  | some st =>
      have hlast := (h.timer st hst).last _ (.inr hraw)
      have hnot : ¬ (100 ≤ status ∧ status ≤ 199) := by
        rintro ⟨-, hle⟩
        exact absurd (UInt16.le_trans hfinal hle) (by decide)
      refine ⟨if status ≤ 299 then some (buildAckFor2xx V branch d cseq)
        else buildAckForNon2xx U raw responseTo, dest, s.1.calleeTransport, s.1.calleeReplyTx, ?_, ?_, ?_⟩
      · simp only [refreshDuplicateAck, hst, hlast, hdest, hd, Option.bind_eq_bind, Option.bind_some,
          ne_eq, not_true_eq_false, if_false, if_neg hnot, Option.map_some, hfinal, true_and]
        rfl
      · intro hle
        rw [if_pos hle]
        exact ⟨d, hd, rfl⟩
      · intro hge
        rw [if_neg]
        intro hle
        exact absurd (UInt16.le_trans hge hle) (by decide)

theorem regular_of_tracks (h : Tracks s) (op : Op) : Regular U V s op := by
  cases op with
  | arm => exact ⟨h.paired, trivial⟩
  | tick now branch localIp localPort => exact regular_tick h now branch localIp localPort
  | complete cseq branch localIp localPort => exact regular_complete h branch localIp localPort
  | fail now delayMs cseq status minSe422 responseTo =>
      exact regular_fail h now delayMs status minSe422 responseTo
  | duplicate cseq status responseTo branch localIp localPort =>
      exact regular_duplicate h status responseTo branch localIp localPort

end

/-- A call that has no timer yet keeps to the protocol whatever happens to it. -/
theorem session_refresh_regular (U : Lowering) (V : Uppering) (call : B2buaCall)
    (h : call.sessionTimer = none) (ops : List Op) :
    Throughout (observed U V) (Regular U V) (call, .start) ops :=
  throughout_always (I := Tracks) (fun _ op hs => tracks_observed hs op)
    (fun _ op hs => regular_of_tracks hs op) (tracks_idle fun st hst => (by rw [h] at hst; cases hst))

def calleeAddr : SocketAddr := NetAddr.ofOctets 192 0 2 2 5060

/-- A connected call that offered media to its callee. -/
def offeredCall : B2buaCall :=
  { B2buaCall.new ['u'] ['i'] ['g'] (NetAddr.ofOctets 192 0 2 1 5060) .udp with
    outbound := some { CallLeg.new ['o'] ['l'] calleeAddr with
      fromRaw := some ['f'], toRaw := some ['t'], remoteTarget := some ['r'] }
    calleeDest := some calleeAddr
    originalOutboundInvite := some (crlfCrlf ++ ['v'])
    state := .connected }

def tickAt (now : Nat) : Op := .tick now ['b'] ['h'] 5060

def refuse (now : Nat) (cseq : UInt32) (status : UInt16) : Op := .fail now 2100 cseq status none ['t']

def twoFailures : List Op :=
  [.arm 0 90 90, tickAt 90000, refuse 90000 2 500, tickAt 180000, refuse 180000 3 500, tickAt 300000]

theorem session_refresh_regular_offered :
    Throughout (observed asciiOnly fun c => [c]) (Regular asciiOnly fun c => [c])
      (offeredCall, .start) (twoFailures ++ [refuse 300000 4 481]) :=
  session_refresh_regular asciiOnly (fun c => [c]) offeredCall rfl _

/-- A third failure that says that refreshes are not done does not end the dialog. -/
theorem third_failure_keeps_dialog :
    let s := twoFailures.foldl (observed asciiOnly fun c => [c]) (offeredCall, .start)
    s.2.failures = 2 ∧
      (failSessionRefresh asciiOnly s.1 300000 2100 4 405 none ['t']).1.map (·.dialogGone) =
        some false ∧
      (failSessionRefresh asciiOnly s.1 300000 2100 4 500 none ['t']).1.map (·.dialogGone) =
        some true := by
  decide

end NixiSbc.SessionRefresh

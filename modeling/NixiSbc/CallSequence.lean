import NixiSbc.B2bua
import NixiSbc.StateRuns

namespace NixiSbc.CallSequence

open ByteWords Stun RawSip TextFields SipBuilder Trunks B2bua StateRuns

/-- What is sent within a call, each with its arguments. -/
inductive Op
  | pushInviteAttempt (now : Nat) (raw : List Char) (dest : SocketAddr) (transport : Transport)
      (trunkId : Option TrunkId)
  | noteRelayedCseq (towardCallee : Bool) (cseq : UInt32)
  | refresh (now : Nat) (branch localIp : List Char) (localPort : UInt16)
  | relayByeTowardCallee (branch localIp : List Char) (localPort : UInt16)
      (reason : Option (List Char))
  | byeTowardCallee (branch localIp : List Char) (localPort : UInt16) (reason : Option (List Char))
  | relayByeTowardCaller (branch localIp : List Char) (localPort : UInt16)
      (reason : Option (List Char))

section

variable (U : Lowering) (V : Uppering)

def stepCall (call : B2buaCall) : Op → B2buaCall
  | .pushInviteAttempt now raw dest transport trunkId =>
      pushInviteAttempt U call now raw dest transport trunkId
  | .noteRelayedCseq towardCallee cseq => noteRelayedCseq call towardCallee cseq
  | .refresh now branch localIp localPort => (refreshCall U V now branch localIp localPort call).2
  | .relayByeTowardCallee branch localIp localPort reason =>
      (buildRelayByeTowardCallee U V call branch localIp localPort reason).2
  | .byeTowardCallee .. => call
  | .relayByeTowardCaller branch localIp localPort reason =>
      (buildRelayByeTowardCaller V call branch localIp localPort reason).2

/-- The request that the SBC originates toward the callee. -/
def towardCallee (call : B2buaCall) : Op → Option (List Char)
  | .refresh now branch localIp localPort =>
      (refreshCall U V now branch localIp localPort call).1.map Outgoing.raw
  | .relayByeTowardCallee branch localIp localPort reason =>
      (buildRelayByeTowardCallee U V call branch localIp localPort reason).1
  | .byeTowardCallee branch localIp localPort reason =>
      byeTowardCallee U V call branch localIp localPort reason
  | _ => none

/-- The request that the SBC originates toward the caller. -/
def towardCaller (call : B2buaCall) : Op → Option (List Char)
  | .relayByeTowardCaller branch localIp localPort reason =>
      (buildRelayByeTowardCaller V call branch localIp localPort reason).1
  | _ => none

end

/-- The request is one that was built with this number. -/
def Carries (V : Uppering) (raw : List Char) (n : UInt32) : Prop :=
  ∃ branch method d cseqMethod extraHeaders body,
    raw = buildRequest V branch method d cseqMethod extraHeaders body ∧ d.cseq = n

/-- The numbers that an observer has seen on the two legs: toward the callee
those of INVITEs, of requests relayed or originated with the counter kept, and
of BYEs built without keeping it. -/
structure Seen where
  invites : List UInt32
  others : List UInt32
  byes : List UInt32
  towardCaller : List UInt32

/-- A call that begins with some INVITEs sent. -/
def Seen.start (call : B2buaCall) : Seen :=
  ⟨call.inviteAttempts.map InviteAttempt.cseq, [], [], []⟩

section

variable (U : Lowering) (V : Uppering)

def note (call : B2buaCall) (seen : Seen) (op : Op) : Seen :=
  match op with
  | .pushInviteAttempt _ raw dest transport trunkId =>
      { seen with invites := (attemptOf U raw dest transport trunkId).cseq :: seen.invites }
  | .noteRelayedCseq true cseq => { seen with others := cseq :: seen.others }
  | .noteRelayedCseq false cseq => { seen with towardCaller := cseq :: seen.towardCaller }
  | .byeTowardCallee .. =>
      match CallSequence.towardCallee U V call op with
      | some _ => { seen with byes := nextOutboundCseq U call :: seen.byes }
      | none => seen
  | .relayByeTowardCaller .. =>
      match CallSequence.towardCaller V call op with
      | some _ => { seen with towardCaller := (call.sentCseqTowardCaller + 1) :: seen.towardCaller }
      | none => seen
  | _ =>
      match CallSequence.towardCallee U V call op with
      | some _ => { seen with others := nextOutboundCseq U call :: seen.others }
      | none => seen

/-- The call beside its observer. -/
def observed (s : B2buaCall × Seen) (op : Op) : B2buaCall × Seen :=
  (stepCall U V s.1 op, note U V s.1 s.2 op)

/-- A request that the SBC originates carries a number above all others that
were sent on the leg. -/
def Increases (s : B2buaCall × Seen) (op : Op) : Prop :=
  (∀ raw, towardCallee U V s.1 op = some raw → ∃ n, Carries V raw n ∧
    (max (liveInviteCseq U s.1) (legCseq s.1)).toNat + 1 = n.toNat ∧
    ∀ m ∈ s.2.invites ++ s.2.others ++ s.2.byes, m < n) ∧
  (∀ raw, towardCaller V s.1 op = some raw → ∃ n, Carries V raw n ∧
    s.1.sentCseqTowardCaller.toNat + 1 = n.toNat ∧ ∀ m ∈ s.2.towardCaller, m < n)

/-- INVITEs carry no lower number than those before. The SBC originates a
request only when a number is left, and none after a BYE that was built
without keeping the counter, unless what was sent since has caught up. -/
def Allowed (s : B2buaCall × Seen) (op : Op) : Prop :=
  (∀ now raw dest transport trunkId, op = .pushInviteAttempt now raw dest transport trunkId →
    ∀ m ∈ s.2.invites, m ≤ (attemptOf U raw dest transport trunkId).cseq) ∧
  ((towardCallee U V s.1 op).isSome →
    (max (liveInviteCseq U s.1) (legCseq s.1)).toNat + 1 < 2 ^ 32 ∧
    ∀ b ∈ s.2.byes, b ≤ max (liveInviteCseq U s.1) (legCseq s.1)) ∧
  ((towardCaller V s.1 op).isSome → s.1.sentCseqTowardCaller.toNat + 1 < 2 ^ 32)

end

theorem getLast?_remember (attempts : List InviteAttempt) (a : InviteAttempt) :
    (remember attempts a).getLast? = some a := by
  rw [remember]
  split
  next h =>
    cases attempts with
    | nil => exact absurd h (by simp [maxInviteAttempts])
    | cons b attempts => exact List.getLast?_concat
  next => exact List.getLast?_concat

section

variable {U : Lowering} {V : Uppering} {call : B2buaCall}

theorem outbound_of_dialogInfo {localIp : List Char} {localPort : UInt16} {d : DialogInfo}
    (h : dialogInfoTowardCallee call localIp localPort = some d) : call.outbound ≠ none := by
  intro hnone
  rw [dialogInfoTowardCallee, hnone] at h
  cases h

theorem legCseq_setLegCseq (h : call.outbound ≠ none) (n : UInt32) :
    legCseq (setLegCseq call n) = n := by
  cases hleg : call.outbound with
  | none => exact absurd hleg h
  | some leg => simp only [legCseq, setLegCseq, hleg, Option.map_some, Option.getD_some]

/-- An operation that keeps the counter does nothing, or originates a request
with the next number and keeps it as the leg's. -/
def KeepsCounter (U : Lowering) (V : Uppering) (call : B2buaCall) (op : Op) : Prop :=
  (CallSequence.towardCallee U V call op = none ∧ stepCall U V call op = call) ∨
  ∃ raw timer, CallSequence.towardCallee U V call op = some raw ∧
    Carries V raw (nextOutboundCseq U call) ∧ call.outbound ≠ none ∧
    stepCall U V call op =
      { setLegCseq call (nextOutboundCseq U call) with sessionTimer := timer }

theorem keepsCounter_refresh (now : Nat) (branch localIp : List Char) (localPort : UInt16) :
    KeepsCounter U V call (.refresh now branch localIp localPort) := by
  simp only [KeepsCounter, CallSequence.towardCallee, stepCall, refreshCall]
  split
  next dest st d sdp _ _ _ hd _ =>
    split
    next => exact .inl ⟨rfl, rfl⟩
    next =>
      exact .inr ⟨_, _, rfl, ⟨_, _, _, _, _, _, rfl, rfl⟩, outbound_of_dialogInfo hd, rfl⟩
  next => exact .inl ⟨rfl, rfl⟩

theorem keepsCounter_relayBye (branch localIp : List Char) (localPort : UInt16)
    (reason : Option (List Char)) :
    KeepsCounter U V call (.relayByeTowardCallee branch localIp localPort reason) := by
  simp only [KeepsCounter, CallSequence.towardCallee, stepCall, buildRelayByeTowardCallee]
  split
  next => exact .inl ⟨rfl, rfl⟩
  next d hd =>
    exact .inr ⟨_, _, rfl, ⟨_, _, _, _, _, _, rfl, rfl⟩, outbound_of_dialogInfo hd, rfl⟩

theorem relayByeTowardCaller_cases (V : Uppering) (call : B2buaCall) (branch localIp : List Char)
    (localPort : UInt16) (reason : Option (List Char)) :
    buildRelayByeTowardCaller V call branch localIp localPort reason = (none, call) ∨
    ∃ raw, buildRelayByeTowardCaller V call branch localIp localPort reason =
        (some raw, { call with sentCseqTowardCaller := call.sentCseqTowardCaller + 1 }) ∧
      Carries V raw (call.sentCseqTowardCaller + 1) := by
  rw [buildRelayByeTowardCaller]
  split
  next => exact .inl rfl
  next d hd =>
    have hcseq : d.cseq = call.sentCseqTowardCaller + 1 := by
      simp only [dialogInfoTowardCaller, Option.bind_eq_bind, Option.bind_eq_some_iff] at hd
      obtain ⟨fromRaw, -, toRaw, -, hd⟩ := hd
      cases hd
      rfl
    exact .inr ⟨buildBye V branch d reason, by rw [hcseq], ⟨_, _, _, _, _, _, rfl, hcseq⟩⟩

theorem KeepsCounter.carries {op : Op} (h : KeepsCounter U V call op) {raw : List Char}
    (hraw : CallSequence.towardCallee U V call op = some raw) :
    Carries V raw (nextOutboundCseq U call) ∧ call.outbound ≠ none := by
  rcases h with ⟨hnone, -⟩ | ⟨raw', timer, hsome, hcarries, hleg, -⟩
  · rw [hnone] at hraw
    cases hraw
  · rw [hsome] at hraw
    cases hraw
    exact ⟨hcarries, hleg⟩

/-- The request toward the callee that an operation originates carries the next
number, and is sent on a leg that exists. -/
theorem towardCallee_carries {op : Op} {raw : List Char}
    (h : CallSequence.towardCallee U V call op = some raw) :
    Carries V raw (nextOutboundCseq U call) ∧ call.outbound ≠ none := by
  cases op with
  | refresh now branch localIp localPort => exact (keepsCounter_refresh ..).carries h
  | relayByeTowardCallee branch localIp localPort reason =>
      exact (keepsCounter_relayBye ..).carries h
  | byeTowardCallee branch localIp localPort reason =>
      obtain ⟨d, hd, rfl⟩ := Option.map_eq_some_iff.mp h
      exact ⟨⟨_, _, _, _, _, _, rfl, rfl⟩, outbound_of_dialogInfo hd⟩
  | pushInviteAttempt => cases h
  | noteRelayedCseq => cases h
  | relayByeTowardCaller => cases h

end

/-- What the call keeps of the numbers seen. -/
structure Keeps (U : Lowering) (s : B2buaCall × Seen) : Prop where
  invites : ∀ m ∈ s.2.invites, m ≤ liveInviteCseq U s.1
  others : s.1.outbound ≠ none → ∀ m ∈ s.2.others, m ≤ legCseq s.1
  caller : ∀ m ∈ s.2.towardCaller, m ≤ s.1.sentCseqTowardCaller

section

variable {U : Lowering} {V : Uppering} {s : B2buaCall × Seen}

theorem increases_of_keeps (h : Keeps U s) {op : Op} (hop : Allowed U V s op) :
    Increases U V s op := by
  obtain ⟨-, hcallee, hcaller⟩ := hop
  constructor
  · intro raw hraw
    obtain ⟨hcarries, hleg⟩ := towardCallee_carries hraw
    obtain ⟨hroom, hbyes⟩ := hcallee (by rw [hraw]; rfl)
    refine ⟨_, hcarries, (u32_toNat_succ hroom).symm, fun m hm => u32_lt_succ hroom ?_⟩
    rcases List.mem_append.mp hm with hm | hm
    · rcases List.mem_append.mp hm with hm | hm
      · exact u32_le_max (.inl (h.invites m hm))
      · exact u32_le_max (.inr (h.others hleg m hm))
    · exact hbyes m hm
  · intro raw hraw
    have hroom := hcaller (by rw [hraw]; rfl)
    cases op with
    | relayByeTowardCaller branch localIp localPort reason =>
        rw [towardCaller] at hraw
        rcases relayByeTowardCaller_cases V s.1 branch localIp localPort reason with
          hcase | ⟨raw', hcase, hcarries⟩
        · rw [hcase] at hraw
          cases hraw
        · rw [hcase] at hraw
          cases hraw
          exact ⟨_, hcarries, (u32_toNat_succ hroom).symm, fun m hm => u32_lt_succ hroom (h.caller m hm)⟩
    | _ => cases hraw

/-- Keeping the counter keeps all numbers below it. -/
theorem keeps_of_keepsCounter (h : Keeps U s) {op : Op} (hkeep : KeepsCounter U V s.1 op)
    (hop : Allowed U V s op)
    (hnote : note U V s.1 s.2 op =
      match towardCallee U V s.1 op with
      | some _ => { s.2 with others := nextOutboundCseq U s.1 :: s.2.others }
      | none => s.2) : Keeps U (observed U V s op) := by
  rcases hkeep with ⟨hnone, hsame⟩ | ⟨raw, timer, hsome, -, hleg, hstep⟩
  · rw [observed, hnote, hnone, hsame]
    exact h
  · obtain ⟨hroom, -⟩ := hop.2.1 (by rw [hsome]; rfl)
    have hcseq : legCseq { setLegCseq s.1 (nextOutboundCseq U s.1) with sessionTimer := timer } =
        nextOutboundCseq U s.1 := legCseq_setLegCseq hleg _
    rw [observed, hnote, hsome, hstep]
    refine ⟨h.invites, fun _ m hm => ?_, h.caller⟩
    rw [hcseq]
    rcases List.mem_cons.mp hm with rfl | hm
    · exact UInt32.le_refl _
    · exact UInt32.le_of_lt (u32_lt_succ hroom (u32_le_max (.inr (h.others hleg m hm))))

theorem keeps_noteRelayedCseq (h : Keeps U s) (toward : Bool) (cseq : UInt32) :
    Keeps U (observed U V s (.noteRelayedCseq toward cseq)) := by
  cases toward with
  | true =>
      refine ⟨h.invites, fun hleg m hm => ?_, h.caller⟩
      change m ≤ legCseq (noteRelayedCseq s.1 true cseq)
      cases hout : s.1.outbound with
      | none =>
          have hnone : (noteRelayedCseq s.1 true cseq).outbound = none := by
            simp only [noteRelayedCseq, if_true, hout, Option.map_none]
          exact absurd hnone hleg
      | some leg =>
          have hcseq : legCseq (noteRelayedCseq s.1 true cseq) = max (legCseq s.1) cseq := by
            simp only [legCseq, noteRelayedCseq, if_true, hout, Option.map_some, Option.getD_some]
          rw [hcseq]
          rcases List.mem_cons.mp hm with rfl | hm
          · exact u32_le_max (.inr (UInt32.le_refl _))
          · exact u32_le_max (.inl (h.others (by rw [hout]; exact Option.some_ne_none leg) m hm))
  | false =>
      refine ⟨h.invites, h.others, fun m hm => ?_⟩
      change m ≤ max s.1.sentCseqTowardCaller cseq
      rcases List.mem_cons.mp hm with rfl | hm
      · exact u32_le_max (.inr (UInt32.le_refl _))
      · exact u32_le_max (.inl (h.caller m hm))

theorem keeps_observed (h : Keeps U s) {op : Op} (hop : Allowed U V s op) :
    Keeps U (observed U V s op) := by
  cases op with
  | pushInviteAttempt now raw dest transport trunkId =>
      have hlive : liveInviteCseq U (pushInviteAttempt U s.1 now raw dest transport trunkId) =
          (attemptOf U raw dest transport trunkId).cseq := by
        simp only [liveInviteCseq, pushInviteAttempt, getLast?_remember]
      refine ⟨fun m hm => ?_, h.others, h.caller⟩
      change m ≤ liveInviteCseq U (pushInviteAttempt U s.1 now raw dest transport trunkId)
      rw [hlive]
      rcases List.mem_cons.mp hm with rfl | hm
      · exact UInt32.le_refl _
      · exact hop.1 _ _ _ _ _ rfl m hm
  | noteRelayedCseq toward cseq => exact keeps_noteRelayedCseq h toward cseq
  | refresh now branch localIp localPort =>
      exact keeps_of_keepsCounter h (keepsCounter_refresh ..) hop rfl
  | relayByeTowardCallee branch localIp localPort reason =>
      exact keeps_of_keepsCounter h (keepsCounter_relayBye ..) hop rfl
  | byeTowardCallee branch localIp localPort reason =>
      simp only [observed, stepCall, note]
      split
      next => exact ⟨h.invites, h.others, h.caller⟩
      next => exact h
  | relayByeTowardCaller branch localIp localPort reason =>
      simp only [observed, stepCall, note, towardCaller]
      rcases relayByeTowardCaller_cases V s.1 branch localIp localPort reason with
        hcase | ⟨raw, hcase, -⟩
      · rw [hcase]
        exact h
      · have hroom := hop.2.2 (by rw [towardCaller, hcase]; rfl)
        rw [hcase]
        refine ⟨h.invites, h.others, fun m hm => ?_⟩
        rcases List.mem_cons.mp hm with rfl | hm
        · exact UInt32.le_refl _
        · exact UInt32.le_of_lt (u32_lt_succ hroom (h.caller m hm))

end

/-- In every run of allowed operations, each request that the SBC originates
carries a number above all that were sent on its leg before. -/
theorem cseq_increases (U : Lowering) (V : Uppering) (call : B2buaCall)
    (hsorted : ∀ a ∈ call.inviteAttempts, a.cseq ≤ liveInviteCseq U call) (ops : List Op)
    (hops : Throughout (observed U V) (Allowed U V) (call, .start call) ops) :
    Throughout (observed U V) (Increases U V) (call, .start call) ops := by
  refine throughout_of_invariant (fun _ _ h hop => keeps_observed h hop)
    (fun _ _ h hop => increases_of_keeps h hop) ⟨?_, ?_, ?_⟩ hops
  · intro m hm
    obtain ⟨a, ha, rfl⟩ := List.mem_map.mp hm
    exact hsorted a ha
  · intro _ m hm
    cases hm
  · intro m hm
    cases hm

def sampleLeg : CallLeg where
  callId := ['i']
  localTag := ['g']
  remoteTag := none
  remoteAddr := NetAddr.ofOctets 192 0 2 2 5060
  cseq := 1
  established := true
  fromRaw := some ['f']
  toRaw := some ['t']
  remoteTarget := some ['r']

/-- An established call. -/
def sampleCall : B2buaCall :=
  { B2buaCall.new ['u'] ['i'] ['g'] (NetAddr.ofOctets 192 0 2 1 5060) .udp with
    inbound := sampleLeg
    outbound := some sampleLeg
    state := .connected }

def byeToCallee : Op := .byeTowardCallee ['b'] ['l'] 5060 none

def relayedByes : List Op :=
  [.noteRelayedCseq true 7, .relayByeTowardCallee ['b'] ['l'] 5060 none, .noteRelayedCseq false 3,
    .relayByeTowardCaller ['b'] ['l'] 5060 none]

theorem cseq_increases_relayed :
    Throughout (observed asciiOnly fun c => [c]) (Increases asciiOnly fun c => [c])
      (sampleCall, .start sampleCall) relayedByes := by
  refine cseq_increases asciiOnly (fun c => [c]) sampleCall (fun a ha => by cases ha) relayedByes
    ⟨⟨?_, fun h => ?_, fun h => ?_⟩, ⟨?_, fun _ => ⟨by decide, fun b hb => by cases hb⟩, fun h => ?_⟩,
      ⟨?_, fun h => ?_, fun h => ?_⟩, ⟨?_, fun h => ?_, fun _ => by decide⟩, trivial⟩
  all_goals first | cases h | (intro _ _ _ _ _ h; cases h)

/-- A second BYE carries the number of the first, and after the highest number
there is none left. -/
theorem cseq_repeats_and_wraps :
    ¬ Throughout (observed asciiOnly fun c => [c]) (Increases asciiOnly fun c => [c])
      (sampleCall, .start sampleCall) [byeToCallee, byeToCallee] ∧
    ¬ Throughout (observed asciiOnly fun c => [c]) (Increases asciiOnly fun c => [c])
      (sampleCall, .start sampleCall)
      [.noteRelayedCseq true 0xFFFFFFFF, .relayByeTowardCallee ['b'] ['l'] 5060 none] := by
  constructor
  · rintro ⟨-, ⟨h, -⟩, -⟩
    obtain ⟨n, -, hn, hlt⟩ := h _ rfl
    have hless := hlt 2 (by decide)
    rw [UInt32.lt_iff_toNat_lt, ← hn] at hless
    exact absurd hless (by decide)
  · rintro ⟨-, ⟨h, -⟩, -⟩
    obtain ⟨n, -, hn, -⟩ := h _ rfl
    have hbound := n.toNat_lt
    rw [← hn] at hbound
    exact absurd hbound (by decide)

end NixiSbc.CallSequence

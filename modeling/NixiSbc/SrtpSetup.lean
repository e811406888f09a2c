import NixiSbc.RelayLoop

namespace NixiSbc.SrtpSetup

open ByteWords Stun NetAddr SrtpKeys SrtpContext Endpoints RtpRelay RelayLoop StateRuns

/-- The tasks beside the loop: the setters that a session spawns, and the
handshakes. -/
inductive Task
  | srtp (leg : Leg)
  | endpoint (leg : Leg)
  | dtls (leg : Leg)
  deriving DecidableEq

/-- What was given to the setters before `start`, and the two contexts that the
handshake of a leg is going to end with. -/
structure Given where
  srtp : Leg → Option SrtpCrypto
  endpoint : Leg → Option SocketAddr
  handshake : Leg → Option (SrtpCrypto × SrtpCrypto)

def cloneForSend (ctx : SrtpCrypto) : SrtpCrypto := fresh ctx.keys

def setSrtpContextA (ctx : SrtpCrypto) : List Store := [.srtp .recvA ctx, .srtp .sendA (cloneForSend ctx)]

def setSrtpContextB (ctx : SrtpCrypto) : List Store := [.srtp .ctxB ctx]

def handshaken : Leg → SrtpCrypto × SrtpCrypto → List Store
  | .a, ctx => [.srtp .recvA ctx.1, .srtp .sendA ctx.2]
  | .b, ctx => [.srtp .recvB ctx.1, .srtp .sendB ctx.2]

/-- What a task has to do, one lock-and-store after the other. -/
def spawned (g : Given) : Task → List Store
  | .srtp .a => (g.srtp .a).elim [] setSrtpContextA
  | .srtp .b => (g.srtp .b).elim [] setSrtpContextB
  | .endpoint leg => (g.endpoint leg).elim [] fun addr => [.endpoint leg addr]
  | .dtls leg => (g.handshake leg).elim [] (handshaken leg)

abbrev Pending := Task → List Store

/-- Some steps of the tasks, in the order they are scheduled in. -/
def runTasks : Pending → List Task → List Store × Pending
  | pending, [] => ([], pending)
  | pending, task :: tasks =>
      let rest := runTasks (Function.update pending task (pending task).tail) tasks
      ((pending task).head?.toList ++ rest.1, rest.2)

structure System (γ : Type) where
  relay : Relay γ
  pending : Pending

inductive Action
  | run (task : Task)
  | datagram (leg : Leg) (elapsed : Nat) (data : Bytes) (source : SocketAddr) (between : List Task)
  | rtcp (leg : Leg) (elapsed : Nat) (data : Bytes) (source : SocketAddr)

section

variable {γ : Type} (cfg : RtpSession γ) (P : Primitives)

def start (g : Given) (codec : γ) : System γ := ⟨.new (fun _ => none) codec, spawned g⟩

def step (s : System γ) : Action → Output × System γ
  | .run task =>
      let t := runTasks s.pending [task]
      (.demuxed, ⟨t.1.foldl Relay.store s.relay, t.2⟩)
  | .datagram leg elapsed data source tasks =>
      let t := runTasks s.pending tasks
      let r := RelayLoop.step cfg P s.relay (.datagram leg elapsed data source t.1)
      (r.1, ⟨r.2, t.2⟩)
  | .rtcp leg elapsed data source =>
      let r := RelayLoop.step cfg P s.relay (.rtcp leg elapsed data source)
      (r.1, ⟨r.2, s.pending⟩)

def next (s : System γ) (a : Action) : System γ := (step cfg P s a).2

variable (g : Given)

/-- The keys of a leg: those that were given for it, or agreed on. -/
def LegKeys (leg : Leg) (K : SessionKeys) : Prop :=
  (∃ ctx ∈ g.srtp leg, ctx.keys = K) ∨ ∃ ctx ∈ g.handshake leg, ctx.1.keys = K ∨ ctx.2.keys = K

/-- Nothing goes to a leg with a context in the clear, and nothing from there is
relayed unchecked. -/
def Protected (s : System γ) (a : Action) : Prop :=
  ∀ leg, (g.srtp leg).isSome → match a with
    | .run _ => True
    | .datagram l _ data _ _ => ∀ dest handed wire, (step cfg P s a).1 = .relayed dest handed wire →
        (l = leg → ∃ ctx plain, LegKeys g leg ctx.keys ∧ (decryptSrtp P ctx data).1 = .ok plain) ∧
        (l.other = leg → ∃ ctx, LegKeys g leg ctx.keys ∧ (encryptRtp P ctx handed).1 = .ok wire)
    | .rtcp l _ _ _ => l = leg → ∀ dest packet, (step cfg P s a).1 ≠ .rtcpRelayed dest packet

/-- A media datagram finds the contexts stored that were given for its own leg
and for the one it goes to, and what comes from the peer on the port for RTCP is
not RTCP. -/
def ContextsStored (s : System γ) (a : Action) : Prop :=
  ∀ leg, (g.srtp leg).isSome → match a with
    | .run _ => True
    | .datagram l _ data _ tasks => inputClass cfg l data ≠ .junk → cfg.webrtcMode leg = false →
        (l = leg → s.relay.srtp (recvSlot cfg leg) ≠ none) ∧
        (l.other = leg →
          ((runTasks s.pending tasks).1.foldl Relay.store s.relay).srtp (sendSlot cfg leg) ≠ none)
    | .rtcp l _ data source => l = leg → looksLikeRtcp data = true →
        (∀ addr ∈ s.relay.endpoint l, ip addr = ip source) →
        (s.relay.endpoint l.other).bind rtcpPort = none

end

/-- The leg that a shared context belongs to. -/
def Slot.leg : Slot → Leg
  | .recvA | .sendA => .a
  | .ctxB | .recvB | .sendB => .b

section Keys

variable {γ : Type} {cfg : RtpSession γ} {P : Primitives} {g : Given} {r r' : Relay γ} {pending : Pending}

theorem recvSlot_leg (cfg : RtpSession γ) (leg : Leg) : Slot.leg (recvSlot cfg leg) = leg := by
  cases leg with
  | a => rfl
  | b => cases hweb : cfg.webrtcMode .b <;> simp [recvSlot, hweb, Slot.leg]

theorem sendSlot_leg (cfg : RtpSession γ) (leg : Leg) : Slot.leg (sendSlot cfg leg) = leg := by
  cases leg with
  | a => rfl
  | b => cases hweb : cfg.webrtcMode .b <;> simp [sendSlot, hweb, Slot.leg]

/-- A store of keys that belong to its leg. -/
def Proper (g : Given) : Store → Prop
  | .srtp slot ctx => LegKeys g (Slot.leg slot) ctx.keys
  | .endpoint _ _ => True

theorem proper_spawned (task : Task) : ∀ s ∈ spawned g task, Proper g s := by
  cases task with
  | srtp leg =>
      cases leg with
      | a =>
          cases hctx : g.srtp .a with
          | none => simp [spawned, hctx]
          | some ctx =>
              have hkeys : LegKeys g .a ctx.keys := Or.inl ⟨ctx, hctx, rfl⟩
              simpa [spawned, hctx, setSrtpContextA, Proper, Slot.leg, cloneForSend, fresh] using hkeys
      | b =>
          cases hctx : g.srtp .b with
          | none => simp [spawned, hctx]
          | some ctx =>
              have hkeys : LegKeys g .b ctx.keys := Or.inl ⟨ctx, hctx, rfl⟩
              simpa [spawned, hctx, setSrtpContextB, Proper, Slot.leg] using hkeys
  | endpoint leg =>
      cases haddr : g.endpoint leg with
      | none | some addr => simp [spawned, haddr, Proper]
  | dtls leg =>
      cases hctx : g.handshake leg with
      | none => simp [spawned, hctx]
      | some ctx =>
          have hrecv : LegKeys g leg ctx.1.keys := Or.inr ⟨ctx, hctx, Or.inl rfl⟩
          have hsend : LegKeys g leg ctx.2.keys := Or.inr ⟨ctx, hctx, Or.inr rfl⟩
          cases leg with
          | a | b => simpa [spawned, hctx, handshaken, Proper, Slot.leg] using ⟨hrecv, hsend⟩

theorem proper_runTasks (h : ∀ task, ∀ s ∈ pending task, Proper g s) (tasks : List Task) :
    (∀ s ∈ (runTasks pending tasks).1, Proper g s) ∧
      ∀ task, ∀ s ∈ (runTasks pending tasks).2 task, Proper g s := by
  induction tasks generalizing pending with
  | nil => exact ⟨nofun, h⟩
  | cons task tasks ih =>
      have htail : ∀ t, ∀ s ∈ Function.update pending task (pending task).tail t, Proper g s := by
        intro t s hs
        by_cases he : t = task
        · rw [he, Function.update_self] at hs
          exact h task s (List.mem_of_mem_tail hs)
        · rw [Function.update_of_ne he] at hs
          exact h t s hs
      obtain ⟨hran, hrest⟩ := ih htail
      refine ⟨fun s hs => ?_, hrest⟩
      rcases List.mem_append.mp hs with hs | hs
      · exact h task s (List.mem_of_mem_head? (Option.mem_toList.mp hs))
      · exact hran s hs

/-- Whatever context is stored has the keys of its leg. -/
def Keyed (g : Given) (r : Relay γ) : Prop := ∀ slot K, r.keys slot = some K → LegKeys g (Slot.leg slot) K

theorem Keyed.of_keys (h : Keyed g r) (hkeys : r'.keys = r.keys) : Keyed g r' := by
  intro slot K hK
  rw [hkeys] at hK
  exact h slot K hK

theorem Keyed.stores (h : Keyed g r) {stores : List Store} (hproper : ∀ s ∈ stores, Proper g s) :
    Keyed g (stores.foldl Relay.store r) := by
  induction stores generalizing r with
  | nil => exact h
  | cons s stores ih =>
      obtain ⟨hs, hrest⟩ := List.forall_mem_cons.mp hproper
      refine ih ?_ hrest
      cases s with
      | srtp slot ctx =>
          intro slot' K hK
          rw [Relay.store, keys_setSrtp] at hK
          by_cases he : slot' = slot
          · rw [he, Function.update_self] at hK
            rw [he, ← Option.some.inj hK]
            exact hs
          · rw [Function.update_of_ne he] at hK
            exact h slot' K hK
      | endpoint leg addr => exact h

theorem srtp_eq_none (slot : Slot) : r.srtp slot = none ↔ r.keys slot = none := by
  rw [Relay.keys, Option.map_eq_none_iff]

theorem Keyed.context (h : Keyed g r) {slot : Slot} {ctx : SrtpCrypto} (hctx : r.srtp slot = some ctx) :
    LegKeys g (Slot.leg slot) ctx.keys :=
  h slot ctx.keys (by rw [Relay.keys, hctx, Option.map_some])

end Keys

section Runs

variable {γ : Type} {cfg : RtpSession γ} {P : Primitives} {g : Given} {s : System γ} {r : Relay γ} {leg : Leg}
  {data : Bytes} {source : SocketAddr} {elapsed : Nat} {between : List Store}

/-- A datagram leaves the keys as the tasks beside it have stored them. -/
theorem keys_onDatagram :
    (onDatagram cfg P r leg data source between).2.keys = (between.foldl Relay.store r).keys := by
  obtain ⟨r₁, hdecrypted, hrest⟩ := advances_onDatagram cfg P r leg data source between
  rw [hrest.keys]
  exact keys_stores (hdecrypted.keys.trans keys_settled) between

/-- The invariant of a session: what is stored, and what is going to be. -/
structure Sound (g : Given) (s : System γ) : Prop where
  keyed : Keyed g s.relay
  pending : ∀ task, ∀ st ∈ s.pending task, Proper g st

theorem sound_start (g : Given) (codec : γ) : Sound g (start g codec) :=
  ⟨(fun _ _ hK => nomatch hK), proper_spawned⟩

theorem Sound.next (h : Sound g s) (a : Action) : Sound g (next cfg P s a) := by
  cases a with
  | run task =>
      obtain ⟨hran, hrest⟩ := proper_runTasks h.pending [task]
      exact ⟨h.keyed.stores hran, hrest⟩
  | datagram leg elapsed data source tasks =>
      obtain ⟨hran, hrest⟩ := proper_runTasks h.pending tasks
      have hclock : ({ s.relay with nowMs := s.relay.nowMs + elapsed } : Relay γ).keys = s.relay.keys := rfl
      exact ⟨(h.keyed.stores hran).of_keys (keys_onDatagram.trans (keys_stores hclock _)), hrest⟩
  | rtcp leg elapsed data source => exact ⟨h.keyed, h.pending⟩

theorem protected_datagram (h : Sound g s) {tasks : List Task}
    (hready : ContextsStored cfg g s (.datagram leg elapsed data source tasks)) :
    Protected cfg P g s (.datagram leg elapsed data source tasks) := by
  intro given hgiven dest handed wire hrelayed
  obtain ⟨hran, -⟩ := proper_runTasks h.pending tasks
  obtain ⟨hclass, hmedia⟩ := media_of_datagram hrelayed
  simp only [step, RelayLoop.step, hmedia] at hrelayed
  obtain ⟨plain, r₁, r₂, r₃, hpasses⟩ := passes_of_media hrelayed
  constructor
  · rintro rfl
    obtain ⟨ctx, ctx', hctx, hdec, -⟩ | ⟨hnone, hweb, -, -⟩ := decryptFrom_ok hpasses.decrypted
    · refine ⟨ctx, plain, ?_, congrArg Prod.fst hdec⟩
      rw [← recvSlot_leg cfg leg]
      exact h.keyed.context hctx
    · exact absurd hnone ((hready leg hgiven hclass hweb).1 rfl)
  · rintro rfl
    have hkeys₁ : r₁.keys = s.relay.keys := by
      have hadvances : Advances _ r₁ := hpasses.decrypted ▸ advances_decryptFrom
      exact hadvances.keys
    have hkeys₂ : r₂.keys = ((runTasks s.pending tasks).1.foldl Relay.store s.relay).keys := by
      have hadvances : Advances _ r₂ := hpasses.transcoded ▸ advances_transcodeFrom
      exact hadvances.keys.trans (keys_stores hkeys₁ _)
    obtain ⟨ctx, ctx', hctx, henc, -⟩ | ⟨hnone, hweb, -, -⟩ := encryptToward_ok hpasses.encrypted
    · refine ⟨ctx, ?_, congrArg Prod.fst henc⟩
      rw [← sendSlot_leg cfg leg.other]
      exact ((h.keyed.stores hran).of_keys hkeys₂).context hctx
    · refine absurd ?_ ((hready leg.other hgiven hclass hweb).2 rfl)
      rw [srtp_eq_none, ← hkeys₂, ← srtp_eq_none]
      exact hnone

theorem protected_step (a : Action) (h : Sound g s) (hready : ContextsStored cfg g s a) :
    Protected cfg P g s a := by
  cases a with
  | run task => exact fun _ _ => trivial
  | datagram leg elapsed data source tasks => exact protected_datagram h hready
  | rtcp leg elapsed data source =>
      rintro given hgiven rfl dest packet hrelayed
      simp only [step, RelayLoop.step, onRtcp] at hrelayed
      split at hrelayed
      next => cases hrelayed
      next hknown =>
        have hnone := hready leg hgiven rfl (by simp_all) (by simp_all [Option.all_eq_true])
        rw [hnone] at hrelayed
        cases hrelayed

/-- However the setters are scheduled: where every media datagram finds the given
contexts of both legs stored and no RTCP is passed on, no leg that was given a
context gets or gives anything in the clear. -/
theorem given_contexts_protect (cfg : RtpSession γ) (P : Primitives) (g : Given) (codec : γ)
    (actions : List Action)
    (h : Throughout (next cfg P) (ContextsStored cfg g) (start g codec) actions) :
    Throughout (next cfg P) (Protected cfg P g) (start g codec) actions :=
  throughout_of_invariant (I := Sound g) (fun _ a hs _ => hs.next a) (fun _ a hs ha => protected_step a hs ha)
    (sound_start g codec) h

end Runs

/-- A call without transcoding on two plain legs. -/
def plainLegs : RtpSession Unit where
  webrtcMode _ := false
  icePwdLocal _ := none
  dtmfPt _ := none
  transcoder _ := none
  endpointPolicy := ⟨.observe, 5000⟩
  signalled leg := some (signalledAddr leg)
where
  signalledAddr : Leg → SocketAddr
    | .a => ofOctets 192 0 2 7 5000
    | .b => ofOctets 192 0 2 1 4000

/-- Both legs were given a context. -/
def bothSecured : Given where
  srtp _ := some (fresh zeroKeys)
  endpoint leg := some (plainLegs.signalledAddr leg)
  handshake _ := none

def headerOnly : Bytes := [0x80, 0, 0, 1, 0, 0, 0, 0, 0, 0, 0, 7]

def stored : List Action :=
  [.run (.endpoint .a), .run (.endpoint .b), .run (.srtp .a), .run (.srtp .a), .run (.srtp .b)]

theorem stored_contexts_protect :
    Throughout (next plainLegs echoPrimitives) (Protected plainLegs echoPrimitives bothSecured)
      (start bothSecured ())
      (stored ++ [.datagram .a 20 headerOnly (ofOctets 192 0 2 7 5000) []]) := by
  refine given_contexts_protect plainLegs echoPrimitives bothSecured () _ ?_
  refine ⟨fun _ _ => trivial, fun _ _ => trivial, fun _ _ => trivial, fun _ _ => trivial,
    fun _ _ => trivial, ?_, trivial⟩
  intro leg _ _ _
  constructor
  · rintro rfl
    exact Option.some_ne_none _
  · rintro rfl
    exact Option.some_ne_none _

/-- A setter that has not run yet: what comes in is relayed as plain RTP. -/
theorem relayed_before_setter :
    ¬Throughout (next plainLegs echoPrimitives) (Protected plainLegs echoPrimitives bothSecured)
      (start bothSecured ())
      [.run (.endpoint .b), .datagram .a 20 headerOnly (ofOctets 192 0 2 7 5000) []] := by
  rintro ⟨-, hprotected, -⟩
  obtain ⟨hdec, -⟩ := hprotected .a rfl (plainLegs.signalledAddr .b) headerOnly headerOnly (by decide)
  obtain ⟨ctx, plain, -, hplain⟩ := hdec rfl
  have hshort : headerOnly.length < 12 + ctx.keys.authTagLen := by
    have htag := ctx.keys.tag_length
    simp [headerOnly]
    omega
  rw [decryptSrtp, if_pos hshort] at hplain
  cases hplain

end NixiSbc.SrtpSetup

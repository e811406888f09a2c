import NixiSbc.RtpRelay
import NixiSbc.SrtpKeystream

namespace NixiSbc.RelayLoop

open ByteWords Stun NetAddr SrtpKeys SrtpContext StunIntegrity Endpoints RtpRelay

/-- The caller's leg and the callee's. -/
inductive Leg
  | a
  | b
  deriving DecidableEq

def Leg.other : Leg → Leg
  | .a => .b
  | .b => .a

/-- The shared SRTP contexts of a session. -/
inductive Slot
  | recvA
  | sendA
  | ctxB
  | recvB
  | sendB
  deriving DecidableEq

/-- What `start` takes over from the session. -/
structure RtpSession (γ : Type) where
  webrtcMode : Leg → Bool
  icePwdLocal : Leg → Option (List Char)
  dtmfPt : Leg → Option UInt8
  transcoder : Leg → Option (Transcoder γ)
  endpointPolicy : EndpointPolicy
  signalled : Leg → Option SocketAddr

structure LegStats where
  ssrc : Option UInt32
  lastRxMs : Nat
  rxPackets : Nat

def LegStats.new : LegStats := ⟨none, 0, 0⟩

def noteRx (s : LegStats) (nowMs : Nat) (data : Bytes) : LegStats :=
  ⟨some (u32At data 8), nowMs, s.rxPackets + 1⟩

def quietFor (s : LegStats) (nowMs : Nat) : Option Nat :=
  if s.lastRxMs = 0 ∧ s.rxPackets = 0 then none else some (nowMs - s.lastRxMs)

/-- The loop between two datagrams. Time is in milliseconds since its start. -/
structure Relay (γ : Type) where
  nowMs : Nat
  endpoint : Leg → Option SocketAddr
  srtp : Slot → Option SrtpCrypto
  stats : Leg → LegStats
  stream : Leg → Stream γ

/-- The loop as it starts, before any context is stored. -/
def Relay.new {γ : Type} (endpoint : Leg → Option SocketAddr) (codec : γ) : Relay γ where
  nowMs := 0
  endpoint := endpoint
  srtp _ := none
  stats _ := .new
  stream _ := ⟨.new, codec⟩

/-- What becomes of a datagram; one that is relayed is also given as it was
before its encryption. -/
inductive Output
  | relayed (dest : SocketAddr) (handed wire : Bytes)
  | rtcpRelayed (dest : SocketAddr) (packet : Bytes)
  | dropped (reason : Option DropReason)
  | demuxed
  deriving DecidableEq

/-- What the tasks beside the loop store; they may also do so between the
decryption of a datagram and the encryption of what is relayed of it. -/
inductive Store
  | srtp (slot : Slot) (ctx : SrtpCrypto)
  | endpoint (leg : Leg) (addr : SocketAddr)

inductive Event
  | datagram (leg : Leg) (elapsed : Nat) (data : Bytes) (source : SocketAddr) (between : List Store)
  | rtcp (leg : Leg) (elapsed : Nat) (data : Bytes) (source : SocketAddr)
  | store (s : Store)

section

variable {γ : Type}

/-- The keys of the contexts that are stored. -/
def Relay.keys (r : Relay γ) (slot : Slot) : Option SessionKeys := (r.srtp slot).map (·.keys)

def Relay.setSrtp (r : Relay γ) (slot : Slot) (ctx : SrtpCrypto) : Relay γ :=
  { r with srtp := Function.update r.srtp slot (some ctx) }

def Relay.setEndpoint (r : Relay γ) (leg : Leg) (addr : Option SocketAddr) : Relay γ :=
  { r with endpoint := Function.update r.endpoint leg addr }

@[simp] theorem Relay.setSrtp_srtp (r : Relay γ) (slot : Slot) (ctx : SrtpCrypto) :
    (r.setSrtp slot ctx).srtp = Function.update r.srtp slot (some ctx) := rfl

@[simp] theorem Relay.setSrtp_endpoint (r : Relay γ) (slot : Slot) (ctx : SrtpCrypto) :
    (r.setSrtp slot ctx).endpoint = r.endpoint := rfl

@[simp] theorem Relay.setEndpoint_srtp (r : Relay γ) (leg : Leg) (addr : Option SocketAddr) :
    (r.setEndpoint leg addr).srtp = r.srtp := rfl

@[simp] theorem Relay.setEndpoint_endpoint (r : Relay γ) (leg : Leg) (addr : Option SocketAddr) :
    (r.setEndpoint leg addr).endpoint = Function.update r.endpoint leg addr := rfl

def Relay.store (r : Relay γ) : Store → Relay γ
  | .srtp slot ctx => r.setSrtp slot ctx
  | .endpoint leg addr => r.setEndpoint leg (some addr)

variable (cfg : RtpSession γ)

/-- DTLS keys of the callee's leg have contexts of their own. -/
def recvSlot : Leg → Slot
  | .a => .recvA
  | .b => if cfg.webrtcMode .b then .recvB else .ctxB

def sendSlot : Leg → Slot
  | .a => .sendA
  | .b => if cfg.webrtcMode .b then .sendB else .ctxB

/-- A packet that is dropped for want of keys is only counted on the caller's leg. -/
def notReady : Leg → Option DropReason
  | .a => some .srtp
  | .b => none

def observation (r : Relay γ) (leg : Leg) (data : Bytes) (source : SocketAddr) : Observation where
  latched := r.endpoint leg
  signalled := cfg.signalled leg
  source := source
  isPlausible := looksLikeRtp data
  sameStream := 12 ≤ data.length ∧ (r.stats leg).ssrc = some (u32At data 8)
  latchedQuietFor := quietFor (r.stats leg) r.nowMs

def verdict (r : Relay γ) (leg : Leg) (data : Bytes) (source : SocketAddr) : Verdict :=
  cfg.endpointPolicy.observe (observation cfg r leg data source)

def inputClass (leg : Leg) (data : Bytes) : MediaInput := classifyMediaInput data (cfg.webrtcMode leg)

/-- The counters and the endpoint after a datagram that is media; the verdict is
on the counters before it. -/
def learn (r : Relay γ) (leg : Leg) (data : Bytes) (source : SocketAddr) : Relay γ :=
  { r.setEndpoint leg (cfg.endpointPolicy.settle (r.endpoint leg) source (verdict cfg r leg data source)) with
    stats :=
      if inputClass cfg leg data = .rtp then
        Function.update r.stats leg (noteRx (r.stats leg) r.nowMs data)
      else r.stats }

/-- From STUN and DTLS an endpoint is only learned where there is none. -/
def learnFirst (r : Relay γ) (leg : Leg) (source : SocketAddr) : Relay γ :=
  if r.endpoint leg = none then r.setEndpoint leg (some source) else r

variable (P : Primitives)

def decryptFrom (r : Relay γ) (leg : Leg) (data : Bytes) :
    Except (Option DropReason) Bytes × Relay γ :=
  match r.srtp (recvSlot cfg leg) with
  | some ctx =>
      match decryptSrtp P ctx data with
      | (.ok plain, ctx) => (.ok plain, r.setSrtp (recvSlot cfg leg) ctx)
      | (.error _, ctx) => (.error (some .srtp), r.setSrtp (recvSlot cfg leg) ctx)
  | none => if cfg.webrtcMode leg then (.error (notReady leg), r) else (.ok data, r)

/-- From a leg toward the other one. -/
def transcodeFrom (r : Relay γ) (leg : Leg) (data : Bytes) :
    Except (Option DropReason) Bytes × Relay γ :=
  match (cfg.transcoder leg).filter fun tc => !tc.isPassthrough with
  | some tc =>
      let t := transcodePacket tc (cfg.dtmfPt leg) (cfg.dtmfPt leg.other) (r.stream leg) data
      (t.1.mapError some, { r with stream := Function.update r.stream leg t.2 })
  | none => (.ok data, r)

def encryptToward (r : Relay γ) (leg : Leg) (data : Bytes) :
    Except (Option DropReason) Bytes × Relay γ :=
  match r.srtp (sendSlot cfg leg) with
  | some ctx =>
      match encryptRtp P ctx data with
      | (.ok wire, ctx) => (.ok wire, r.setSrtp (sendSlot cfg leg) ctx)
      | (.error _, ctx) => (.error (some .srtp), r.setSrtp (sendSlot cfg leg) ctx)
  | none => if cfg.webrtcMode leg then (.error (notReady leg), r) else (.ok data, r)

def deliver (r : Relay γ) (leg : Leg) (handed wire : Bytes) : Output :=
  match r.endpoint leg with
  | some dest => .relayed dest handed wire
  | none => .dropped (some .noEndpoint)

/-- The way of a media datagram, with its source settled. -/
def relayMedia (r : Relay γ) (leg : Leg) (data : Bytes) (between : List Store) : Output × Relay γ :=
  match decryptFrom cfg P r leg data with
  | (.error reason, r) => (.dropped reason, between.foldl Relay.store r)
  | (.ok plain, r) =>
      match transcodeFrom cfg (between.foldl Relay.store r) leg plain with
      | (.error reason, r) => (.dropped reason, r)
      | (.ok handed, r) =>
          match encryptToward cfg P r leg.other handed with
          | (.error reason, r) => (.dropped reason, r)
          | (.ok wire, r) => (deliver r leg.other handed wire, r)

def onMedia (r : Relay γ) (leg : Leg) (data : Bytes) (source : SocketAddr) (between : List Store) :
    Output × Relay γ :=
  if inputClass cfg leg data = .junk then (.dropped (some .notRtp), between.foldl Relay.store r)
  else relayMedia cfg P (learn cfg r leg data source) leg data between

def refusedCheck (leg : Leg) (data : Bytes) : Bool :=
  (cfg.icePwdLocal leg).any fun pwd =>
    match validateBindingRequest P.hmacSha1 data pwd with
    | .ok () => false
    | .error _ => true

/-- The demultiplexing of a WebRTC leg. -/
def onDatagram (r : Relay γ) (leg : Leg) (data : Bytes) (source : SocketAddr) (between : List Store) :
    Output × Relay γ :=
  if cfg.webrtcMode leg then
    match classifyPacket data with
    | .stun =>
        if refusedCheck cfg P leg data then (.dropped (some .iceAuth), between.foldl Relay.store r)
        else (.demuxed, between.foldl Relay.store (learnFirst r leg source))
    | .dtls => (.demuxed, between.foldl Relay.store (learnFirst r leg source))
    | .rtp => onMedia cfg P r leg data source between
    | .rtcp | .unknown => (.demuxed, between.foldl Relay.store r)
  else onMedia cfg P r leg data source between

/-- The port after the one of an address. -/
def rtcpPort : SocketAddr → Option SocketAddr
  | .v4 octets port => if port = 65535 then none else some (.v4 octets (port + 1))
  | .v6 octets port _ _ => if port = 65535 then none else some (.v6 octets (port + 1) 0 0)

/-- On the port for RTCP alone. -/
def onRtcp (r : Relay γ) (leg : Leg) (data : Bytes) (source : SocketAddr) : Output :=
  let known := (r.endpoint leg).all fun ep => ip ep = ip source
  if !known ∨ !looksLikeRtcp data then .dropped (some .rtcp)
  else
    match (r.endpoint leg.other).bind rtcpPort with
    | some dest => .rtcpRelayed dest data
    | none => .demuxed

def step (r : Relay γ) : Event → Output × Relay γ
  | .datagram leg elapsed data source between =>
      onDatagram cfg P { r with nowMs := r.nowMs + elapsed } leg data source between
  | .rtcp leg elapsed data source => (onRtcp r leg data source, { r with nowMs := r.nowMs + elapsed })
  | .store s => (.demuxed, r.store s)

def next (r : Relay γ) (e : Event) : Relay γ := (step cfg P r e).2

end

section Relayed

variable {γ : Type} {cfg : RtpSession γ} {P : Primitives} {r : Relay γ} {leg : Leg} {data : Bytes}
  {source dest : SocketAddr} {between : List Store} {handed wire : Bytes}

theorem decryptFrom_ok {plain : Bytes} {r₁ : Relay γ} (h : decryptFrom cfg P r leg data = (.ok plain, r₁)) :
    (∃ ctx ctx', r.srtp (recvSlot cfg leg) = some ctx ∧ decryptSrtp P ctx data = (.ok plain, ctx') ∧
      r₁ = r.setSrtp (recvSlot cfg leg) ctx') ∨
    (r.srtp (recvSlot cfg leg) = none ∧ cfg.webrtcMode leg = false ∧ plain = data ∧ r₁ = r) := by
  unfold decryptFrom at h
  split at h
  next ctx hctx =>
    split at h
    next ctx' hdec =>
      cases h
      exact Or.inl ⟨ctx, ctx', hctx, hdec, rfl⟩
    next => cases h
  next hctx =>
    split at h
    next => cases h
    next hweb =>
      cases h
      exact Or.inr ⟨hctx, by simpa using hweb, rfl, rfl⟩

theorem encryptToward_ok {r₁ : Relay γ} (h : encryptToward cfg P r leg data = (.ok wire, r₁)) :
    (∃ ctx ctx', r.srtp (sendSlot cfg leg) = some ctx ∧ encryptRtp P ctx data = (.ok wire, ctx') ∧
      r₁ = r.setSrtp (sendSlot cfg leg) ctx') ∨
    (r.srtp (sendSlot cfg leg) = none ∧ cfg.webrtcMode leg = false ∧ wire = data ∧ r₁ = r) := by
  unfold encryptToward at h
  split at h
  next ctx hctx =>
    split at h
    next ctx' henc =>
      cases h
      exact Or.inl ⟨ctx, ctx', hctx, henc, rfl⟩
    next => cases h
  next hctx =>
    split at h
    next => cases h
    next hweb =>
      cases h
      exact Or.inr ⟨hctx, by simpa using hweb, rfl, rfl⟩

/-- The contexts alone decide what a datagram decrypts to. -/
theorem decryptFrom_congr {r' : Relay γ} (h : r'.srtp = r.srtp) :
    (decryptFrom cfg P r' leg data).1 = (decryptFrom cfg P r leg data).1 := by
  unfold decryptFrom
  rw [h]
  cases r.srtp (recvSlot cfg leg) with
  | some ctx =>
      rcases hdec : decryptSrtp P ctx data with ⟨e | plain, ctx'⟩
      · simp only [hdec]
      · simp only [hdec]
  | none =>
      dsimp only
      split
      next => rfl
      next => rfl

theorem transcodeFrom_ok {plain : Bytes} {r₁ : Relay γ} (h : transcodeFrom cfg r leg plain = (.ok handed, r₁)) :
    (∃ tc s', cfg.transcoder leg = some tc ∧ tc.isPassthrough = false ∧
      transcodePacket tc (cfg.dtmfPt leg) (cfg.dtmfPt leg.other) (r.stream leg) plain = (.ok handed, s') ∧
      r₁ = { r with stream := Function.update r.stream leg s' }) ∨
    ((∀ tc, cfg.transcoder leg = some tc → tc.isPassthrough = true) ∧ handed = plain ∧ r₁ = r) := by
  unfold transcodeFrom at h
  split at h
  next tc htc =>
    obtain ⟨htc, hpass⟩ := Option.filter_eq_some_iff.mp htc
    generalize ht : transcodePacket tc (cfg.dtmfPt leg) (cfg.dtmfPt leg.other) (r.stream leg) plain = t at h
    obtain ⟨e | out, s'⟩ := t
    · cases h
    · cases h
      exact Or.inl ⟨tc, s', htc, by simpa using hpass, ht, rfl⟩
  next hnone =>
    cases h
    refine Or.inr ⟨fun tc htc => ?_, rfl, rfl⟩
    simpa [htc] using hnone

/-- Of a datagram that is relayed, every stage went through. -/
structure Passes (cfg : RtpSession γ) (P : Primitives) (r : Relay γ) (leg : Leg) (data : Bytes)
    (between : List Store) (dest : SocketAddr) (plain handed wire : Bytes) (r₁ r₂ r₃ : Relay γ) : Prop where
  decrypted : decryptFrom cfg P r leg data = (.ok plain, r₁)
  transcoded : transcodeFrom cfg (between.foldl Relay.store r₁) leg plain = (.ok handed, r₂)
  encrypted : encryptToward cfg P r₂ leg.other handed = (.ok wire, r₃)
  dest : r₃.endpoint leg.other = some dest

theorem passes_of_media (h : (relayMedia cfg P r leg data between).1 = .relayed dest handed wire) :
    ∃ plain r₁ r₂ r₃, Passes cfg P r leg data between dest plain handed wire r₁ r₂ r₃ := by
  unfold relayMedia at h
  split at h
  next => cases h
  next plain r₁ hdec =>
    split at h
    next => cases h
    next handed' r₂ htrans =>
      split at h
      next => cases h
      next wire' r₃ henc =>
        simp only [deliver] at h
        split at h
        next dest' hdest =>
          cases h
          exact ⟨plain, r₁, r₂, r₃, hdec, htrans, henc, hdest⟩
        next => cases h

theorem media_of_datagram (h : (onDatagram cfg P r leg data source between).1 = .relayed dest handed wire) :
    inputClass cfg leg data ≠ .junk ∧
      onDatagram cfg P r leg data source between =
        relayMedia cfg P (learn cfg r leg data source) leg data between := by
  have hmedia (h : (onMedia cfg P r leg data source between).1 = .relayed dest handed wire) :
      inputClass cfg leg data ≠ .junk ∧
        onMedia cfg P r leg data source between =
          relayMedia cfg P (learn cfg r leg data source) leg data between := by
    unfold onMedia at h ⊢
    split at h
    next => cases h
    next hjunk => exact ⟨hjunk, if_neg hjunk⟩
  unfold onDatagram at h ⊢
  split at h
  next hweb =>
    rw [if_pos hweb]
    split at h
    next =>
      split at h
      next => cases h
      next => cases h
    next => cases h
    next => exact hmedia h
    next => cases h
    next => cases h
  next hweb =>
    rw [if_neg hweb]
    exact hmedia h

/-- What a relayed packet is made of. -/
theorem passes_of_step {e : Event} (h : (step cfg P r e).1 = .relayed dest handed wire) :
    ∃ leg elapsed data source between plain r₁ r₂ r₃, e = .datagram leg elapsed data source between ∧
      Passes cfg P (learn cfg { r with nowMs := r.nowMs + elapsed } leg data source) leg data between
        dest plain handed wire r₁ r₂ r₃ := by
  cases e with
  | datagram leg elapsed data source between =>
      obtain ⟨-, hmedia⟩ := media_of_datagram h
      rw [step, hmedia] at h
      obtain ⟨plain, r₁, r₂, r₃, hpasses⟩ := passes_of_media h
      exact ⟨leg, elapsed, data, source, between, plain, r₁, r₂, r₃, rfl, hpasses⟩
  | rtcp leg elapsed data source =>
      simp only [step, onRtcp] at h
      split at h
      next => cases h
      next =>
        split at h
        next => cases h
        next => cases h
  | store s => cases h

end Relayed

section Advance

variable {γ : Type} {cfg : RtpSession γ} {P : Primitives} {r r' r'' : Relay γ} {leg l : Leg} {data : Bytes}
  {source : SocketAddr} {between : List Store}

/-- Contexts may have counted on under their keys, and a stream may have moved;
the rest is as before. -/
structure Advances (r r' : Relay γ) : Prop where
  nowMs : r'.nowMs = r.nowMs
  endpoint : r'.endpoint = r.endpoint
  stats : r'.stats = r.stats
  keys : r'.keys = r.keys

theorem Advances.refl : Advances r r := ⟨rfl, rfl, rfl, rfl⟩

theorem Advances.trans (h : Advances r r') (h' : Advances r' r'') : Advances r r'' :=
  ⟨h'.nowMs.trans h.nowMs, h'.endpoint.trans h.endpoint, h'.stats.trans h.stats, h'.keys.trans h.keys⟩

theorem keys_setSrtp (slot : Slot) (ctx : SrtpCrypto) :
    (r.setSrtp slot ctx).keys = Function.update r.keys slot (some ctx.keys) := by
  funext slot'
  by_cases he : slot' = slot
  · rw [he, Relay.keys, Relay.setSrtp_srtp, Function.update_self, Function.update_self, Option.map_some]
  · rw [Relay.keys, Relay.setSrtp_srtp, Function.update_of_ne he, Function.update_of_ne he, Relay.keys]

theorem advances_setSrtp {slot : Slot} {ctx ctx' : SrtpCrypto} (h : r.srtp slot = some ctx)
    (hkeys : ctx'.keys = ctx.keys) : Advances r (r.setSrtp slot ctx') := by
  refine ⟨rfl, rfl, rfl, ?_⟩
  rw [keys_setSrtp, Function.update_eq_self_iff, Relay.keys, h, Option.map_some, hkeys]

/-- What is stored does not depend on what was. -/
theorem keys_stores (h : r'.keys = r.keys) (stores : List Store) :
    (stores.foldl Relay.store r').keys = (stores.foldl Relay.store r).keys := by
  induction stores generalizing r r' with
  | nil => exact h
  | cons s stores ih =>
      apply ih
      cases s with
      | srtp slot ctx => rw [Relay.store, Relay.store, keys_setSrtp, keys_setSrtp, h]
      | endpoint leg addr => exact h

theorem sendRoc_keys (c : SrtpCrypto) (ssrc : UInt32) (seq : UInt16) : (sendRoc c ssrc seq).2.keys = c.keys := by
  unfold sendRoc
  split
  next => rfl
  next =>
    split
    next => rfl
    next =>
      split
      next => rfl
      next => rfl

theorem encryptRtp_keys (c : SrtpCrypto) (packet : Bytes) : (encryptRtp P c packet).2.keys = c.keys := by
  have hkeys := sendRoc_keys c (u32At packet 8) (u16At packet 2)
  unfold encryptRtp
  split
  next => rfl
  next =>
    split
    next => rfl
    next =>
      dsimp only
      split
      next hroc => rw [hroc] at hkeys; exact hkeys
      next hroc => rw [hroc] at hkeys; exact hkeys

theorem advances_decryptFrom : Advances r (decryptFrom cfg P r leg data).2 := by
  unfold decryptFrom
  split
  next ctx hctx =>
    have hkeys := (SrtpKeystream.decryptSrtp_frame P ctx data).2
    split
    next hdec => exact advances_setSrtp hctx (by rwa [hdec] at hkeys)
    next hdec => exact advances_setSrtp hctx (by rwa [hdec] at hkeys)
  next =>
    split
    next => exact .refl
    next => exact .refl

theorem advances_transcodeFrom : Advances r (transcodeFrom cfg r leg data).2 := by
  unfold transcodeFrom
  split
  next => exact ⟨rfl, rfl, rfl, rfl⟩
  next => exact .refl

theorem advances_encryptToward : Advances r (encryptToward cfg P r leg data).2 := by
  unfold encryptToward
  split
  next ctx hctx =>
    have hkeys := encryptRtp_keys (P := P) ctx data
    split
    next henc => exact advances_setSrtp hctx (by rwa [henc] at hkeys)
    next henc => exact advances_setSrtp hctx (by rwa [henc] at hkeys)
  next =>
    split
    next => exact .refl
    next => exact .refl

/-- Between the decryption and the rest of its way, only the tasks beside the
loop change anything. -/
theorem advances_relayMedia :
    Advances (between.foldl Relay.store (decryptFrom cfg P r leg data).2) (relayMedia cfg P r leg data between).2 := by
  unfold relayMedia
  split
  next hdec => rw [hdec]; exact .refl
  next plain r₁ hdec =>
    rw [hdec]
    have htrans : Advances (between.foldl Relay.store r₁)
      (transcodeFrom cfg (between.foldl Relay.store r₁) leg plain).2 := advances_transcodeFrom
    split
    next h => rw [h] at htrans; exact htrans
    next handed r₂ h =>
      rw [h] at htrans
      have henc : Advances r₂ (encryptToward cfg P r₂ leg.other handed).2 := advances_encryptToward
      split
      next h => rw [h] at henc; exact htrans.trans henc
      next h => rw [h] at henc; exact htrans.trans henc

/-- What a datagram does to the loop before anything is decrypted. -/
def settled (cfg : RtpSession γ) (P : Primitives) (r : Relay γ) (leg : Leg) (data : Bytes)
    (source : SocketAddr) : Relay γ :=
  let media := if inputClass cfg leg data = .junk then r else learn cfg r leg data source
  if cfg.webrtcMode leg then
    match classifyPacket data with
    | .stun => if refusedCheck cfg P leg data then r else learnFirst r leg source
    | .dtls => learnFirst r leg source
    | .rtp => media
    | .rtcp | .unknown => r
  else media

/-- A datagram settles its source; then it may be decrypted, the tasks beside the
loop go on, and the rest of its way follows. -/
theorem advances_onDatagram (cfg : RtpSession γ) (P : Primitives) (r : Relay γ) (leg : Leg) (data : Bytes)
    (source : SocketAddr) (between : List Store) :
    ∃ r₁, Advances (settled cfg P r leg data source) r₁ ∧
      Advances (between.foldl Relay.store r₁) (onDatagram cfg P r leg data source between).2 := by
  have hmedia : ∃ r₁,
      Advances (if inputClass cfg leg data = .junk then r else learn cfg r leg data source) r₁ ∧
        Advances (between.foldl Relay.store r₁) (onMedia cfg P r leg data source between).2 := by
    unfold onMedia
    split
    next => exact ⟨r, .refl, .refl⟩
    next => exact ⟨_, advances_decryptFrom, advances_relayMedia⟩
  unfold onDatagram settled
  cases cfg.webrtcMode leg with
  | false => exact hmedia
  | true =>
      cases classifyPacket data with
      | stun =>
          cases refusedCheck cfg P leg data with
          | false | true => exact ⟨_, .refl, .refl⟩
      | rtp => exact hmedia
      | dtls | rtcp | unknown => exact ⟨_, .refl, .refl⟩

theorem keys_settled : (settled cfg P r leg data source).keys = r.keys := by
  have hmedia : (if inputClass cfg leg data = .junk then r else learn cfg r leg data source).keys = r.keys := by
    split
    next => rfl
    next => rfl
  have hfirst : (learnFirst r leg source).keys = r.keys := by
    rw [learnFirst]
    split
    next => rfl
    next => rfl
  unfold settled
  cases cfg.webrtcMode leg with
  | false => exact hmedia
  | true =>
      cases classifyPacket data with
      | stun =>
          cases refusedCheck cfg P leg data with
          | false => exact hfirst
          | true => rfl
      | dtls => exact hfirst
      | rtp => exact hmedia
      | rtcp | unknown => rfl

/-- The tasks beside the loop decide what endpoint they store, and leave the others alone. -/
theorem endpoint_stores (stores : List Store) :
    (stores.foldl Relay.store r).endpoint l = r.endpoint l ∨
      ∃ addr, .endpoint l addr ∈ stores ∧ (stores.foldl Relay.store r).endpoint l = some addr := by
  induction stores generalizing r with
  | nil => exact Or.inl rfl
  | cons s stores ih =>
      rcases ih (r := r.store s) with hkept | ⟨addr, hmem, haddr⟩
      · rw [List.foldl_cons, hkept]
        cases s with
        | srtp slot ctx => exact Or.inl rfl
        | endpoint l' addr =>
            rw [Relay.store, Relay.setEndpoint_endpoint]
            by_cases he : l = l'
            · rw [he, Function.update_self]
              exact Or.inr ⟨addr, List.mem_cons_self, rfl⟩
            · exact Or.inl (Function.update_of_ne he _ _)
      · exact Or.inr ⟨addr, List.mem_cons_of_mem s hmem, haddr⟩

theorem endpoint_learnFirst (h : (learnFirst r leg source).endpoint l ≠ r.endpoint l) :
    l = leg ∧ r.endpoint leg = none ∧ (learnFirst r leg source).endpoint l = some source := by
  unfold learnFirst at h ⊢
  split at h
  next hnone =>
    rw [if_pos hnone]
    rw [Relay.setEndpoint_endpoint] at h ⊢
    by_cases he : l = leg
    · rw [he, Function.update_self]
      exact ⟨rfl, hnone, rfl⟩
    · exact absurd (Function.update_of_ne he _ _) h
  next => exact absurd rfl h

theorem endpoint_learn (h : (learn cfg r leg data source).endpoint l ≠ r.endpoint l) :
    l = leg ∧ cfg.endpointPolicy.applies (verdict cfg r leg data source) = true ∧
      (learn cfg r leg data source).endpoint l = some source := by
  simp only [learn, Relay.setEndpoint_endpoint] at h ⊢
  by_cases he : l = leg
  · rw [he, Function.update_self] at h ⊢
    exact ⟨rfl, settle_ne h⟩
  · exact absurd (Function.update_of_ne he _ _) h

/-- Of what is demultiplexed as RTP, only RTP-shaped datagrams are media. -/
theorem looksLikeRtp_of_media (hrtp : classifyPacket data = .rtp) (hclass : inputClass cfg leg data ≠ .junk) :
    looksLikeRtp data = true := by
  cases data with
  | nil => cases hrtp
  | cons b bs =>
      simp only [classifyPacket] at hrtp
      simp only [inputClass, classifyMediaInput] at hclass
      split_ifs at hrtp with hstun hdtls hmedia
      by_contra hshape
      have hlow : ¬b ≤ 3 := hstun
      rw [if_neg (fun h => hshape h.2.2), if_neg (fun h => hlow h.1), if_neg (fun h => hdtls ⟨h.1, h.2.1⟩)]
        at hclass
      exact hclass rfl

/-- A datagram settles nothing on the other leg. -/
theorem leg_of_settled (h : (settled cfg P r leg data source).endpoint l ≠ r.endpoint l) : l = leg := by
  have hmedia (h : (if inputClass cfg leg data = .junk then r else learn cfg r leg data source).endpoint l ≠
      r.endpoint l) : l = leg := by
    split at h
    next => exact absurd rfl h
    next => exact (endpoint_learn h).1
  unfold settled at h
  cases hweb : cfg.webrtcMode leg with
  | false => exact hmedia (by simpa [hweb] using h)
  | true =>
      cases hclass : classifyPacket data with
      | stun =>
          cases hrefused : refusedCheck cfg P leg data with
          | false => exact (endpoint_learnFirst (by simpa [hweb, hclass, hrefused] using h)).1
          | true => simp [hweb, hclass, hrefused] at h
      | dtls => exact (endpoint_learnFirst (by simpa [hweb, hclass] using h)).1
      | rtp => exact hmedia (by simpa [hweb, hclass] using h)
      | rtcp | unknown => simp [hweb, hclass] at h

theorem stats_stores (stores : List Store) : (stores.foldl Relay.store r).stats = r.stats := by
  induction stores generalizing r with
  | nil => rfl
  | cons s stores ih =>
      rw [List.foldl_cons, ih]
      cases s with
      | srtp slot ctx | endpoint l addr => rfl

end Advance

end NixiSbc.RelayLoop

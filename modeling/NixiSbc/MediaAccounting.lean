import NixiSbc.EndpointLearning

namespace NixiSbc.MediaAccounting

open ByteWords Stun NetAddr SrtpKeys SrtpContext RtpRelay RelayLoop EndpointLearning StateRuns

/-- The counters of a call. A send that fails has a drop counter of its own. -/
structure CallMediaStats where
  txPackets : Leg → Nat
  drops : DropReason → Nat
  sendFailed : Nat

namespace CallMediaStats

def new : CallMediaStats := ⟨fun _ => 0, fun _ => 0, 0⟩

/-- Audio and what is not audio count alike. -/
def noteTx (s : CallMediaStats) (leg : Leg) : CallMediaStats :=
  { s with txPackets := Function.update s.txPackets leg (s.txPackets leg + 1) }

def noteDrop (s : CallMediaStats) (reason : DropReason) : CallMediaStats :=
  { s with drops := Function.update s.drops reason (s.drops reason + 1) }

def noteSendFailed (s : CallMediaStats) : CallMediaStats := { s with sendFailed := s.sendFailed + 1 }

/-- A datagram that is too short is counted here as well. -/
def noteRx (s : CallMediaStats) (data : Bytes) : CallMediaStats :=
  if data.length < 12 then s.noteDrop .notRtp else s

/-- Delivered on either leg, or dropped on the way of the media. -/
def explained (s : CallMediaStats) : Nat :=
  s.txPackets .a + s.txPackets .b + s.drops .notRtp + s.drops .noEndpoint + s.drops .payloadType +
    s.drops .transcode + s.drops .srtp + s.sendFailed

end CallMediaStats

/-- The relay with what it counts, and beside it what has reached its two RTP sockets. -/
structure Tally (γ : Type) where
  relay : Relay γ
  stats : CallMediaStats
  received : Nat
  consumed : Nat

section Counting

variable {γ : Type} (cfg : RtpSession γ) (P : Primitives)

def Tally.new (endpoint : Leg → Option SocketAddr) (codec : γ) : Tally γ := ⟨.new endpoint codec, .new, 0, 0⟩

/-- Taken as STUN or DTLS, whatever becomes of it there. -/
def isConsumed (leg : Leg) (data : Bytes) : Bool :=
  cfg.webrtcMode leg ∧ (classifyPacket data = .stun ∨ classifyPacket data = .dtls)

/-- What is counted for a datagram; `sent` says whether the socket takes what is sent. -/
def count (s : CallMediaStats) (leg : Leg) (data : Bytes) (sent : Bool) (o : Output) : CallMediaStats :=
  let s := if reachesMedia cfg leg data ∧ inputClass cfg leg data = .rtp then s.noteRx data else s
  match o with
  | .relayed _ _ _ => if sent then s.noteTx leg.other else s.noteSendFailed
  | .dropped (some reason) => s.noteDrop reason
  | .dropped none | .rtcpRelayed _ _ | .demuxed => s

def Tally.step (t : Tally γ) : Event × Bool → Tally γ
  | (.datagram leg elapsed data source between, sent) =>
      let r := RelayLoop.step cfg P t.relay (.datagram leg elapsed data source between)
      { relay := r.2
        stats := count cfg t.stats leg data sent r.1
        received := t.received + 1
        consumed := if isConsumed cfg leg data then t.consumed + 1 else t.consumed }
  | (.rtcp leg elapsed data source, _) =>
      let r := RelayLoop.step cfg P t.relay (.rtcp leg elapsed data source)
      { t with
        relay := r.2
        stats := if r.1 = .dropped (some .rtcp) then t.stats.noteDrop .rtcp else t.stats }
  | (.store s, _) => { t with relay := t.relay.store s }

/-- Every datagram has been delivered once or counted once. -/
def Tally.Balanced (t : Tally γ) : Prop := t.received = t.consumed + t.stats.explained

/-- A datagram can be decrypted and transcoded. -/
def Handed (r : Relay γ) (leg : Leg) (data : Bytes) : Prop :=
  ∃ plain handed, (decryptFrom cfg P r leg data).1 = .ok plain ∧ (transcodeFrom cfg r leg plain).1 = .ok handed

/-- The callee's leg has no keys yet: for what comes from it, or for what goes toward it. -/
def Keyless (r : Relay γ) (data : Bytes) (between : List Store) : Leg → Prop
  | .b => cfg.webrtcMode .b = true ∧ r.srtp .recvB = none
  | .a => cfg.webrtcMode .b = true ∧ (between.foldl Relay.store r).srtp .sendB = none ∧ Handed cfg P r .a data

/-- Nothing is multiplexed with the media of a WebRTC leg but STUN and DTLS, and
no media meets the callee's WebRTC leg before its keys. -/
def Accountable (t : Tally γ) : Event × Bool → Prop
  | (.datagram leg _ data _ between, _) =>
      (cfg.webrtcMode leg = true → classifyPacket data ≠ .rtcp ∧ classifyPacket data ≠ .unknown) ∧
        (reachesMedia cfg leg data = true → ¬Keyless cfg P t.relay data between leg)
  | (.rtcp _ _ _ _, _) | (.store _, _) => True

end Counting

section Outcomes

variable {γ : Type} {cfg : RtpSession γ} {P : Primitives} {r r₁ : Relay γ} {leg : Leg} {data plain : Bytes}
  {source : SocketAddr} {between : List Store} {reason : Option DropReason}

theorem decryptFrom_error (h : decryptFrom cfg P r leg data = (.error reason, r₁)) :
    reason = some .srtp ∨ (reason = none ∧ leg = .b ∧ cfg.webrtcMode .b = true ∧ r.srtp .recvB = none) := by
  unfold decryptFrom at h
  split at h
  next ctx hctx =>
    split at h
    next => cases h
    next => cases h; exact Or.inl rfl
  next hctx =>
    split at h
    next hweb =>
      cases h
      cases leg with
      | a => exact Or.inl rfl
      | b => exact Or.inr ⟨rfl, rfl, hweb, by simpa [recvSlot, hweb] using hctx⟩
    next => cases h

theorem encryptToward_error (h : encryptToward cfg P r leg data = (.error reason, r₁)) :
    reason = some .srtp ∨ (reason = none ∧ leg = .b ∧ cfg.webrtcMode .b = true ∧ r.srtp .sendB = none) := by
  unfold encryptToward at h
  split at h
  next ctx hctx =>
    split at h
    next => cases h
    next => cases h; exact Or.inl rfl
  next hctx =>
    split at h
    next hweb =>
      cases h
      cases leg with
      | a => exact Or.inl rfl
      | b => exact Or.inr ⟨rfl, rfl, hweb, by simpa [sendSlot, hweb] using hctx⟩
    next => cases h

theorem transcodePacket_error {tc : Transcoder γ} {dtmfIn dtmfOut : Option UInt8} {s : Stream γ} {e : DropReason}
    (h : (transcodePacket tc dtmfIn dtmfOut s data).1 = .error e) : e = .payloadType ∨ e = .transcode := by
  unfold transcodePacket at h
  dsimp only at h
  split at h
  next => cases h
  next =>
    split at h
    next => cases h; exact Or.inl rfl
    next =>
      split at h
      next => cases h
      next =>
        split at h
        next =>
          split at h
          next => cases h; exact Or.inr rfl
          next =>
            unfold convertVoice at h
            split at h
            next => cases h; exact Or.inr rfl
            next => cases h
        next => cases h

theorem transcodeFrom_error (h : transcodeFrom cfg r leg plain = (.error reason, r₁)) :
    reason = some .payloadType ∨ reason = some .transcode := by
  unfold transcodeFrom at h
  split at h
  next tc htc =>
    dsimp only at h
    generalize ht : transcodePacket tc (cfg.dtmfPt leg) (cfg.dtmfPt leg.other) (r.stream leg) plain = t at h
    obtain ⟨e | out, s'⟩ := t
    · cases h
      exact (transcodePacket_error (congrArg Prod.fst ht)).imp (congrArg some) (congrArg some)
    · cases h
  next => cases h

/-- What is stored in a slot is what was there, or what is stored last. -/
theorem srtp_stores {r' : Relay γ} {slot : Slot} (h : r'.srtp slot = r.srtp slot) (stores : List Store) :
    (stores.foldl Relay.store r').srtp slot = (stores.foldl Relay.store r).srtp slot := by
  induction stores generalizing r r' with
  | nil => exact h
  | cons s stores ih =>
      apply ih
      cases s with
      | srtp slot' ctx =>
          simp only [Relay.store, Relay.setSrtp_srtp]
          by_cases he : slot = slot'
          · rw [he, Function.update_self, Function.update_self]
          · rw [Function.update_of_ne he, Function.update_of_ne he, h]
      | endpoint l addr => exact h

theorem stream_stores (stores : List Store) : (stores.foldl Relay.store r).stream = r.stream := by
  induction stores generalizing r with
  | nil => rfl
  | cons s stores ih =>
      rw [List.foldl_cons, ih]
      cases s with
      | srtp slot ctx | endpoint l addr => rfl

theorem decryptFrom_stream : (decryptFrom cfg P r leg data).2.stream = r.stream := by
  unfold decryptFrom
  split
  next =>
    split
    next => rfl
    next => rfl
  next =>
    split
    next => rfl
    next => rfl

/-- The keys toward the callee's leg are no part of a decryption. -/
theorem decryptFrom_sendB (hweb : cfg.webrtcMode .b = true) :
    (decryptFrom cfg P r leg data).2.srtp .sendB = r.srtp .sendB := by
  have hslot : Slot.sendB ≠ recvSlot cfg leg := by
    cases leg with
    | a => rintro ⟨⟩
    | b => rw [recvSlot, if_pos hweb]; rintro ⟨⟩
  unfold decryptFrom
  split
  next =>
    split
    next => exact Function.update_of_ne hslot _ _
    next => exact Function.update_of_ne hslot _ _
  next =>
    split
    next => rfl
    next => rfl

theorem transcodeFrom_srtp : (transcodeFrom cfg r leg data).2.srtp = r.srtp := by
  unfold transcodeFrom
  split
  next => rfl
  next => rfl

theorem transcodeFrom_congr {r' : Relay γ} (h : r'.stream = r.stream) :
    (transcodeFrom cfg r' leg data).1 = (transcodeFrom cfg r leg data).1 := by
  unfold transcodeFrom
  split
  next => rw [h]
  next => rfl

theorem handed_congr {r' : Relay γ} (hsrtp : r'.srtp = r.srtp) (hstream : r'.stream = r.stream) :
    Handed cfg P r' leg data ↔ Handed cfg P r leg data := by
  unfold Handed
  rw [decryptFrom_congr hsrtp]
  simp only [transcodeFrom_congr hstream]

theorem keyless_congr {r' : Relay γ} (hsrtp : r'.srtp = r.srtp) (hstream : r'.stream = r.stream) :
    Keyless cfg P r' data between leg ↔ Keyless cfg P r data between leg := by
  cases leg with
  | a => rw [Keyless, Keyless, handed_congr hsrtp hstream, srtp_stores (congrFun hsrtp _)]
  | b => rw [Keyless, Keyless, hsrtp]

/-- How much of a datagram is counted. -/
def share : Output → Nat
  | .relayed _ _ _ => 1
  | .dropped (some .rtcp) | .dropped (some .iceAuth) => 0
  | .dropped (some _) => 1
  | .dropped none | .rtcpRelayed _ _ | .demuxed => 0

theorem share_deliver (handed wire : Bytes) : share (deliver r leg handed wire) = 1 := by
  unfold deliver
  split
  next => rfl
  next => rfl

open scoped Classical in
/-- A media datagram is counted unless it meets the callee's leg before its keys. -/
theorem share_relayMedia :
    share (relayMedia cfg P r leg data between).1 = if Keyless cfg P r data between leg then 0 else 1 := by
  unfold relayMedia
  split
  next reason r₁ hdec =>
    rcases decryptFrom_error hdec with rfl | ⟨rfl, rfl, hweb, hnone⟩
    · have hkeys : ¬Keyless cfg P r data between leg := by
        cases leg with
        | a =>
            rintro ⟨-, -, plain, handed, hplain, -⟩
            rw [hdec] at hplain
            cases hplain
        | b =>
            rintro ⟨hweb, hnone⟩
            simp [decryptFrom, recvSlot, hweb, hnone, notReady] at hdec
      rw [if_neg hkeys]
      rfl
    · rw [if_pos ⟨hweb, hnone⟩]
      rfl
  next plain r₁ hdec =>
    have hstream : (between.foldl Relay.store r₁).stream = r.stream := by
      have hkept : (decryptFrom cfg P r leg data).2.stream = r.stream := decryptFrom_stream
      rw [hdec] at hkept
      rw [stream_stores, hkept]
    split
    next reason r₂ htrans =>
      have hkeys : ¬Keyless cfg P r data between leg := by
        cases leg with
        | a =>
            rintro ⟨-, -, plain', handed, hplain, hhanded⟩
            rw [hdec] at hplain
            cases hplain
            rw [← transcodeFrom_congr hstream, htrans] at hhanded
            cases hhanded
        | b =>
            rintro ⟨hweb, hnone⟩
            simp [decryptFrom, recvSlot, hweb, hnone] at hdec
      rw [if_neg hkeys]
      rcases transcodeFrom_error htrans with rfl | rfl
      · rfl
      · rfl
    next handed r₂ htrans =>
      have hhanded : Handed cfg P r leg data :=
        ⟨plain, handed, congrArg Prod.fst hdec, by rw [← transcodeFrom_congr hstream, htrans]⟩
      have hsend (hweb : cfg.webrtcMode .b = true) : r₂.srtp .sendB = (between.foldl Relay.store r).srtp .sendB := by
        have hsrtp : (transcodeFrom cfg (between.foldl Relay.store r₁) leg plain).2.srtp = _ := transcodeFrom_srtp
        have hkept : (decryptFrom cfg P r leg data).2.srtp .sendB = _ := decryptFrom_sendB hweb
        rw [htrans] at hsrtp
        rw [hdec] at hkept
        rw [hsrtp, srtp_stores hkept]
      have hrecv : leg = .b → ¬Keyless cfg P r data between leg := by
        rintro rfl ⟨hweb, hnone⟩
        simp [decryptFrom, recvSlot, hweb, hnone] at hdec
      split
      next reason r₃ henc =>
        rcases encryptToward_error henc with rfl | ⟨rfl, hleg, hweb, hnone⟩
        · rw [if_neg]
          · rfl
          cases leg with
          | a =>
              rintro ⟨hweb, hnone, -⟩
              rw [← hsend hweb] at hnone
              simp [encryptToward, sendSlot, Leg.other, hweb, hnone, notReady] at henc
          | b => exact hrecv rfl
        · cases leg with
          | a =>
              rw [if_pos ⟨hweb, by rw [← hsend hweb, hnone], hhanded⟩]
              rfl
          | b => cases hleg
      next wire r₃ henc =>
        rw [share_deliver, if_neg]
        cases leg with
        | a =>
            rintro ⟨hweb, hnone, -⟩
            rw [← hsend hweb] at hnone
            simp [encryptToward, sendSlot, Leg.other, hweb, hnone] at henc
        | b => exact hrecv rfl

end Outcomes

section Steps

variable {γ : Type} {cfg : RtpSession γ} {P : Primitives} {r : Relay γ} {leg : Leg} {data : Bytes}
  {source : SocketAddr} {between : List Store} {t : Tally γ} {s : CallMediaStats}

@[simp] theorem explained_noteTx : (s.noteTx leg).explained = s.explained + 1 := by
  cases leg with
  | a | b => simp [CallMediaStats.noteTx, CallMediaStats.explained, Function.update]; omega

@[simp] theorem explained_noteSendFailed : s.noteSendFailed.explained = s.explained + 1 := rfl

theorem explained_noteDrop (reason : DropReason) :
    (s.noteDrop reason).explained = s.explained + share (.dropped (some reason)) := by
  cases reason with
  | notRtp | noEndpoint | payloadType | transcode | srtp | rtcp | iceAuth =>
      simp [CallMediaStats.noteDrop, CallMediaStats.explained, Function.update, share]
      try omega

/-- What gets as far as the media is long enough not to be counted on its way in. -/
theorem noteRx_of_media (h : reachesMedia cfg leg data = true) : s.noteRx data = s := by
  have hlong : 12 ≤ data.length := (of_decide_eq_true (looksLikeRtp_of_reachesMedia h)).1
  exact if_neg (Nat.not_lt.mpr hlong)

theorem explained_count (sent : Bool) (o : Output) :
    (count cfg s leg data sent o).explained = s.explained + share o := by
  have hrx : (if reachesMedia cfg leg data ∧ inputClass cfg leg data = .rtp then s.noteRx data else s) = s := by
    split
    next h => exact noteRx_of_media h.1
    next => rfl
  unfold count
  rw [hrx]
  cases o with
  | relayed dest handed wire =>
      cases sent with
      | true => exact explained_noteTx
      | false => exact explained_noteSendFailed
  | dropped reason =>
      cases reason with
      | none => rfl
      | some reason => exact explained_noteDrop reason
  | rtcpRelayed dest packet => rfl
  | demuxed => rfl

open scoped Classical in
/-- A media datagram on its way in, likewise. -/
theorem share_onMedia (hrtp : cfg.webrtcMode leg = true → classifyPacket data = .rtp) :
    share (onMedia cfg P r leg data source between).1 =
      if reachesMedia cfg leg data = true → ¬Keyless cfg P r data between leg then 1 else 0 := by
  unfold onMedia
  split
  next hjunk =>
    rw [if_pos (fun h => absurd hjunk (of_decide_eq_true h).2)]
    rfl
  next hjunk =>
    have hreaches : reachesMedia cfg leg data = true := decide_eq_true ⟨hrtp, hjunk⟩
    have hkeys : Keyless cfg P (learn cfg r leg data source) data between leg ↔ Keyless cfg P r data between leg :=
      keyless_congr rfl rfl
    rw [share_relayMedia]
    by_cases h : Keyless cfg P r data between leg
    · rw [if_pos (hkeys.mpr h), if_neg (fun hall => hall hreaches h)]
    · rw [if_neg (fun h' => h (hkeys.mp h')), if_pos (fun _ => h)]

/-- What is multiplexed with the media does not get as far as the media. -/
theorem not_reachesMedia (hweb : cfg.webrtcMode leg = true) (h : classifyPacket data ≠ .rtp) :
    reachesMedia cfg leg data ≠ true :=
  fun hreaches => h ((of_decide_eq_true hreaches).1 hweb)

open scoped Classical in
/-- Each datagram is taken as STUN or DTLS, or counted, unless it is one that is not accounted for. -/
theorem share_datagram (cfg : RtpSession γ) (P : Primitives) (leg : Leg) (elapsed : Nat) (data : Bytes)
    (source : SocketAddr) (between : List Store) (sent : Bool) (hsrtp : r.srtp = t.relay.srtp)
    (hstream : r.stream = t.relay.stream) :
    (if isConsumed cfg leg data then 1 else 0) + share (onDatagram cfg P r leg data source between).1 =
      if Accountable cfg P t (.datagram leg elapsed data source between, sent) then 1 else 0 := by
  have hkeys : Keyless cfg P r data between leg ↔ Keyless cfg P t.relay data between leg :=
    keyless_congr hsrtp hstream
  unfold onDatagram
  cases hweb : cfg.webrtcMode leg with
  | false =>
      have hother : isConsumed cfg leg data = false := by simp [isConsumed, hweb]
      rw [if_neg Bool.false_ne_true, share_onMedia (fun h => absurd h (by simp [hweb])), hother]
      simp [Accountable, hweb, hkeys]
  | true =>
      rw [if_pos rfl]
      cases hclass : classifyPacket data with
      | stun =>
          have hpast : reachesMedia cfg leg data ≠ true := not_reachesMedia hweb (by simp [hclass])
          cases refusedCheck cfg P leg data with
          | true | false => simp [isConsumed, Accountable, hweb, hclass, hpast, share]
      | dtls =>
          have hpast : reachesMedia cfg leg data ≠ true := not_reachesMedia hweb (by simp [hclass])
          simp [isConsumed, Accountable, hweb, hclass, hpast, share]
      | rtp =>
          dsimp only
          rw [share_onMedia (fun _ => hclass)]
          simp [isConsumed, Accountable, hweb, hclass, hkeys]
      | rtcp => simp [isConsumed, Accountable, hweb, hclass, share]
      | unknown => simp [isConsumed, Accountable, hweb, hclass, share]

/-- So many datagrams are neither delivered nor counted. -/
def Tally.Missing (t : Tally γ) (n : Nat) : Prop := t.received = t.consumed + t.stats.explained + n

theorem missing_zero : t.Missing 0 ↔ t.Balanced := Iff.rfl

open scoped Classical in
theorem missing_step (cfg : RtpSession γ) (P : Primitives) {n : Nat} (h : t.Missing n) (e : Event × Bool) :
    (t.step cfg P e).Missing (if Accountable cfg P t e then n else n + 1) := by
  obtain ⟨e, sent⟩ := e
  unfold Tally.Missing at h ⊢
  cases e with
  | datagram leg elapsed data source between =>
      have hshare := share_datagram (r := { t.relay with nowMs := t.relay.nowMs + elapsed }) (t := t) cfg P leg elapsed
        data source between sent rfl rfl
      dsimp only at hshare
      simp only [Tally.step, RelayLoop.step, explained_count]
      by_cases hok : Accountable cfg P t (.datagram leg elapsed data source between, sent)
      · rw [if_pos hok] at hshare ⊢
        split_ifs at hshare ⊢ with hconsumed
        · omega
        · omega
      · rw [if_neg hok] at hshare ⊢
        split_ifs at hshare ⊢ with hconsumed
        · omega
        · omega
  | rtcp leg elapsed data source =>
      have hok : Accountable cfg P t (.rtcp leg elapsed data source, sent) := trivial
      rw [if_pos hok]
      simp only [Tally.step]
      split_ifs with hdrop
      · rw [explained_noteDrop]
        exact h
      · exact h
  | store s => simpa [Tally.step, Accountable] using h

/-- Nothing that is missing is made up for later. -/
theorem missing_run (cfg : RtpSession γ) (P : Primitives) {n : Nat} (h : t.Missing n) (events : List (Event × Bool)) :
    ∃ m, (events.foldl (Tally.step cfg P) t).Missing m ∧ n ≤ m ∧
      (m = n ↔ Throughout (Tally.step cfg P) (Accountable cfg P) t events) := by
  induction events generalizing t n with
  | nil => exact ⟨n, h, Nat.le_refl n, fun _ => trivial, fun _ => rfl⟩
  | cons e events ih =>
      classical
      obtain ⟨m, hm, hle, hiff⟩ := ih (missing_step cfg P h e)
      refine ⟨m, hm, ?_, ?_⟩
      · split_ifs at hle with hok
        · exact hle
        · omega
      · split_ifs at hle hiff with hok
        · rw [hiff]
          exact ⟨fun hrest => ⟨hok, hrest⟩, And.right⟩
        · exact ⟨fun hmn => absurd hle (by omega), fun hall => absurd hall.1 hok⟩

/-- Every datagram of a run is accounted for just when nothing but STUN and DTLS
is multiplexed with the media of a WebRTC leg, and no media meets the callee's
WebRTC leg before its keys. -/
theorem balanced_iff (cfg : RtpSession γ) (P : Primitives) (endpoint : Leg → Option SocketAddr) (codec : γ)
    (events : List (Event × Bool)) :
    (events.foldl (Tally.step cfg P) (Tally.new endpoint codec)).Balanced ↔
      Throughout (Tally.step cfg P) (Accountable cfg P) (Tally.new endpoint codec) events := by
  obtain ⟨m, hm, -, hiff⟩ := missing_run cfg P (t := Tally.new endpoint codec) (n := 0) rfl events
  rw [← hiff, Tally.Balanced]
  unfold Tally.Missing at hm
  omega

end Steps

/-- A WebRTC callee. -/
def webrtcCall : RtpSession Unit where
  webrtcMode leg := leg = .b
  icePwdLocal _ := none
  dtmfPt _ := none
  transcoder _ := none
  endpointPolicy := ⟨.moves, 5000⟩
  signalled _ := none

/-- A sender report under RTCP-mux, and a voice packet toward a callee whose handshake is not over. -/
def uncounted : List Event :=
  [.datagram .b 20 [0x80, 200, 0, 1, 0, 0, 0, 7] (ofOctets 203 0 113 9 6004) [],
    .datagram .a 20 (rtpWith 7) (ofOctets 198 51 100 7 6004) []]

instance (t : Tally Unit) : Decidable t.Balanced := inferInstanceAs (Decidable (_ = _))

theorem webrtcCall_uncounted :
    (uncounted.all fun e =>
      decide ¬(Tally.step webrtcCall echoPrimitives (.new (fun _ => none) ()) (e, true)).Balanced) = true := by
  decide

end NixiSbc.MediaAccounting

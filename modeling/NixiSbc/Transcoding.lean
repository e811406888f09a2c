import NixiSbc.RelayLoop

namespace NixiSbc.Transcoding

open ByteWords Stun NetAddr SrtpKeys SrtpContext Endpoints RtpRelay RelayLoop StateRuns

section Alteration

/-- Bytes that differ at most at some positions. -/
structure Alters (changed : Nat → Prop) (p q : Bytes) : Prop where
  length : q.length = p.length
  rest : ∀ i, ¬changed i → q[i]? = p[i]?

variable {changed : Nat → Prop} {p q r : Bytes}

theorem Alters.refl : Alters changed p p := ⟨rfl, fun _ _ => rfl⟩

theorem Alters.trans (h : Alters changed p q) (h' : Alters changed q r) : Alters changed p r :=
  ⟨h'.length.trans h.length, fun i hi => (h'.rest i hi).trans (h.rest i hi)⟩

theorem Alters.mono {changed' : Nat → Prop} (h : Alters changed p q) (hle : ∀ i, changed i → changed' i) :
    Alters changed' p q :=
  ⟨h.length, fun i hi => h.rest i fun hc => hi (hle i hc)⟩

theorem Alters.drop (h : Alters changed p q) {k : Nat} (hk : ∀ i, k ≤ i → ¬changed i) :
    q.drop k = p.drop k := by
  apply List.ext_getElem?
  intro i
  rw [List.getElem?_drop, List.getElem?_drop]
  exact h.rest _ (hk _ (Nat.le_add_right k i))

theorem Alters.byteAt (h : Alters changed p q) {i : Nat} (hi : ¬changed i) : byteAt q i = byteAt p i :=
  byteAt_congr (h.rest i hi)

theorem Alters.u16At (h : Alters changed p q) {i : Nat} (h₀ : ¬changed i) (h₁ : ¬changed (i + 1)) :
    u16At q i = u16At p i := by
  rw [ByteWords.u16At, ByteWords.u16At, h.byteAt h₀, h.byteAt h₁]

theorem Alters.u32At (h : Alters changed p q) {i : Nat} (hi : ∀ j, i ≤ j → j ≤ i + 3 → ¬changed j) :
    u32At q i = u32At p i := by
  rw [ByteWords.u32At, ByteWords.u32At, h.byteAt (hi i (by omega) (by omega)),
    h.byteAt (hi (i + 1) (by omega) (by omega)), h.byteAt (hi (i + 2) (by omega) (by omega)),
    h.byteAt (hi (i + 3) (by omega) (by omega))]

theorem alters_set (p : Bytes) (k : Nat) (b : UInt8) : Alters (· = k) p (p.set k b) := by
  refine ⟨List.length_set, fun i hi => ?_⟩
  exact List.getElem?_set_ne (Ne.symm hi)

theorem alters_overwrite {at_ : Nat} {bytes : Bytes} (h : at_ + bytes.length ≤ p.length) :
    Alters (fun i => at_ ≤ i ∧ i < at_ + bytes.length) p (overwrite p at_ bytes) := by
  have htake : (p.take at_).length = at_ := by
    rw [List.length_take]
    omega
  constructor
  · simp only [overwrite, List.length_append, List.length_drop, htake]
    omega
  · intro i hi
    rw [overwrite]
    rcases Nat.lt_or_ge i at_ with hlt | hge
    · rw [List.append_assoc, List.getElem?_append_left (by omega), List.getElem?_take_of_lt hlt]
    · rw [List.getElem?_append_right (by rw [List.length_append, htake]; omega), List.getElem?_drop,
        List.length_append, htake]
      congr 1
      omega

/-- The header's length is read off its first byte and what follows the twelfth. -/
theorem rtpHeaderLength_of_alters (h : Alters changed p q) (hx : ∀ i, i = 0 ∨ 12 ≤ i → ¬changed i) :
    rtpHeaderLength q = rtpHeaderLength p := by
  have hext (base : Nat) (hbase : 12 ≤ base) : ByteWords.u16At q (base + 2) = ByteWords.u16At p (base + 2) :=
    h.u16At (hx _ (Or.inr (by omega))) (hx _ (Or.inr (by omega)))
  simp only [rtpHeaderLength, h.length, h.byteAt (hx 0 (Or.inl rfl)), hext _ (Nat.le_add_right 12 _)]

end Alteration

section Packets

variable {γ : Type} {tc : Transcoder γ} {dtmfIn dtmfOut : Option UInt8} {s : Stream γ} {data out : Bytes}

/-- A header of twelve bytes under the other codec's type, before the converted
payload. -/
structure Converted (tc : Transcoder γ) (g : γ) (data out : Bytes) : Prop where
  srcPt : payloadType data = tc.srcPt
  long : 12 ≤ out.length
  first : byteAt out 0 = 0x80
  marker : marker out = marker data
  dstPt : payloadType out = tc.dstPt
  seq : u16At out 2 = u16At data 2
  ssrc : u32At out 8 = u32At data 8
  payload : (tc.transcode g (data.drop (rtpHeaderLength data))).1 = .ok (out.drop 12)

/-- The positions that an event may be altered at: its type, and between two
clocks its timestamp and its duration. -/
def EventField (tc : Transcoder γ) (data : Bytes) (i : Nat) : Prop :=
  i = 1 ∨ tc.src.clockRate ≠ tc.dst.clockRate ∧
    (4 ≤ i ∧ i < 8 ∨ 0 < rtpHeaderLength data ∧ rtpHeaderLength data + 2 ≤ i ∧ i < rtpHeaderLength data + 4)

structure EventCarried (tc : Transcoder γ) (dtmfOut : Option UInt8) (data out : Bytes) : Prop where
  second : byteAt out 1 = withPayloadType data (dtmfOut.getD (payloadType data))
  alters : Alters (EventField tc data) data out

/-- There is a payload, after a header that can be read. -/
def HasPayload (data : Bytes) : Prop := 0 < rtpHeaderLength data ∧ rtpHeaderLength data < data.length

instance (data : Bytes) : Decidable (HasPayload data) := inferInstanceAs (Decidable (_ ∧ _))

/-- How a packet crosses a transcoded call. -/
def Crosses (tc : Transcoder γ) (dtmfIn dtmfOut : Option UInt8) (g : γ) (data out : Bytes) : Prop :=
  if isDtmf dtmfIn (payloadType data) then EventCarried tc dtmfOut data out
  else if payloadType data = 13 then out = data
  else HasPayload data → Converted tc g data out

theorem marker_or_payloadType (b : UInt8) : b &&& 0x80 ||| b &&& 0x7F = b := by
  apply UInt8.toNat_inj.mp
  rw [UInt8.toNat_or, UInt8.toNat_and, UInt8.toNat_and, ← Nat.and_or_distrib_left]
  exact Nat.and_two_pow_sub_one_of_lt_two_pow (n := 8) b.toNat_lt

/-- A type of seven bits leaves the marker alone. -/
theorem and_marker_or (b : UInt8) {pt : UInt8} (h : pt ≤ 127) :
    (b &&& 0x80 ||| pt) &&& 0x80 = b &&& 0x80 ∧ (b &&& 0x80 ||| pt) &&& 0x7F = pt := by
  have hpt : pt.toNat < 2 ^ 7 := by
    have := UInt8.le_iff_toNat_le.mp h
    simp at this
    omega
  have hself : pt.toNat &&& 127 = pt.toNat := Nat.and_two_pow_sub_one_of_lt_two_pow (n := 7) hpt
  have hhigh : pt.toNat &&& 128 = 0 := by
    rw [← hself, Nat.and_assoc]
    exact Nat.and_zero _
  constructor
  · apply UInt8.toNat_inj.mp
    simp only [UInt8.toNat_and, UInt8.toNat_or, Nat.and_or_distrib_right, Nat.and_assoc]
    exact (congrArg _ hhigh).trans (Nat.or_zero _)
  · apply UInt8.toNat_inj.mp
    simp only [UInt8.toNat_and, UInt8.toNat_or, Nat.and_or_distrib_right, Nat.and_assoc]
    exact (congrArg _ hself).trans (by simp)

theorem le_rtpHeaderLength (h : 0 < rtpHeaderLength data) : 12 ≤ rtpHeaderLength data := by
  simp only [rtpHeaderLength] at h ⊢
  split_ifs at h ⊢ <;> omega

theorem alters_remapEvent : Alters (· = 1) data (remapEvent dtmfOut data) := by
  cases dtmfOut with
  | none => exact .refl
  | some pt =>
      rw [remapEvent]
      split
      next => exact alters_set data 1 _
      next => exact .refl

theorem second_remapEvent (h : 12 ≤ data.length) :
    byteAt (remapEvent dtmfOut data) 1 = withPayloadType data (dtmfOut.getD (payloadType data)) := by
  have hself : byteAt data 1 = withPayloadType data (payloadType data) :=
    (marker_or_payloadType (byteAt data 1)).symm
  cases dtmfOut with
  | none => exact hself
  | some pt =>
      simp only [remapEvent, Option.getD_some]
      split
      next => simp [byteAt, List.getD_eq_getElem?_getD, List.getElem?_set_self (show 1 < data.length by omega)]
      next hpt => rw [hself, not_not.mp hpt]

theorem alters_putTimestamp {p : Bytes} (ts : UInt32) (h : 12 ≤ p.length) :
    Alters (fun i => 4 ≤ i ∧ i < 8) p (putTimestamp p ts) := by
  have hbytes : (beBytes 4 ts.toNat).length = 4 := beBytes_length 4 _
  have halters : Alters _ p (overwrite p 4 (beBytes 4 ts.toNat)) := alters_overwrite (by omega)
  rwa [hbytes] at halters

theorem alters_rescaleDuration (p : Bytes) (srcRate dstRate : Nat) :
    Alters (fun i => 0 < rtpHeaderLength p ∧ rtpHeaderLength p + 2 ≤ i ∧ i < rtpHeaderLength p + 4) p
      (rescaleDuration p srcRate dstRate) := by
  simp only [rescaleDuration]
  split
  next h =>
    have hbytes (n : Nat) : (beBytes 2 n).length = 2 := beBytes_length 2 n
    refine (alters_overwrite (by rw [hbytes]; omega)).mono fun i hi => ?_
    rw [hbytes] at hi
    exact ⟨h.1, by omega, by omega⟩
  next => exact .refl

/-- A payload type and a timestamp do not enter into the header's length. -/
theorem rtpHeaderLength_remapEvent : rtpHeaderLength (remapEvent dtmfOut data) = rtpHeaderLength data :=
  rtpHeaderLength_of_alters alters_remapEvent (by omega)

theorem eventCarried_relayEvent (h : 12 ≤ data.length) (hdtmf : isDtmf dtmfIn (payloadType data) = true) :
    EventCarried tc dtmfOut data (relayEvent tc dtmfIn dtmfOut s data).1 := by
  have hremap : Alters (· = 1) data (remapEvent dtmfOut data) := alters_remapEvent
  have hlong : 12 ≤ (remapEvent dtmfOut data).length := hremap.length ▸ h
  simp only [relayEvent, if_pos hdtmf, TimestampMap.rescaleEvent]
  split
  next => exact ⟨second_remapEvent h, hremap.mono fun i hi => Or.inl hi⟩
  next hrates =>
    have hts := alters_putTimestamp ((s.clock.map (u32At (remapEvent dtmfOut data) 4) tc.src.clockRate
      tc.dst.clockRate).1) hlong
    have hdur := alters_rescaleDuration (putTimestamp (remapEvent dtmfOut data) (s.clock.map
      (u32At (remapEvent dtmfOut data) 4) tc.src.clockRate tc.dst.clockRate).1) tc.src.clockRate tc.dst.clockRate
    rw [rtpHeaderLength_of_alters hts (by omega), rtpHeaderLength_remapEvent] at hdur
    constructor
    · rw [hdur.byteAt (fun hi => absurd (le_rtpHeaderLength hi.1) (by omega)), hts.byteAt (by omega)]
      exact second_remapEvent h
    · have hclocks : tc.src.clockRate ≠ tc.dst.clockRate := fun he => hrates (Or.inl he)
      refine ((hremap.mono fun i hi => Or.inl hi).trans (hts.mono fun i hi => ?_)).trans
        (hdur.mono fun i hi => ?_)
      · exact Or.inr ⟨hclocks, Or.inl hi⟩
      · exact Or.inr ⟨hclocks, Or.inr hi⟩

theorem rebuilt_length (h : 12 ≤ data.length) (pt : UInt8) (payload : Bytes) :
    (rebuilt data pt payload).length = 12 + payload.length := by
  simp [rebuilt, h]

/-- A rebuilt packet before its timestamp is put in. -/
theorem converted_rebuilt {payload : Bytes} {g : γ} (h : 12 ≤ data.length) (hsrc : payloadType data = tc.srcPt)
    (hpayload : (tc.transcode g (data.drop (rtpHeaderLength data))).1 = .ok payload) :
    Converted tc g data (rebuilt data tc.dstPt payload) := by
  have hhead : (((data.take 12).set 0 0x80).set 1 (withPayloadType data tc.dstPt)).length = 12 := by simp [h]
  have hfar (i : Nat) (hi : 2 ≤ i) (hlt : i < 12) : byteAt (rebuilt data tc.dstPt payload) i = byteAt data i := by
    apply byteAt_congr
    rw [rebuilt, List.getElem?_append_left (by omega), List.getElem?_set_ne (by omega),
      List.getElem?_set_ne (by omega), List.getElem?_take_of_lt hlt]
  have hsecond : byteAt (rebuilt data tc.dstPt payload) 1 = withPayloadType data tc.dstPt := by
    rw [byteAt, rebuilt, List.getD_eq_getElem?_getD, List.getElem?_append_left (by omega),
      List.getElem?_set_self (by simp; omega), Option.getD_some]
  have hbits := and_marker_or (byteAt data 1) tc.dstPt_le
  refine ⟨hsrc, by rw [rebuilt_length h]; omega, ?_, ?_, ?_, ?_, ?_, ?_⟩
  · rw [byteAt, rebuilt, List.getD_eq_getElem?_getD, List.getElem?_append_left (by omega),
      List.getElem?_set_ne (by omega), List.getElem?_set_self (by simp; omega), Option.getD_some]
  · rw [marker, hsecond]
    exact hbits.1
  · rw [payloadType, hsecond]
    exact hbits.2
  · simp only [u16At, hfar 2 (by omega) (by omega), hfar 3 (by omega) (by omega)]
  · simp only [u32At, hfar 8 (by omega) (by omega), hfar 9 (by omega) (by omega),
      hfar 10 (by omega) (by omega), hfar 11 (by omega) (by omega)]
  · rw [rebuilt, List.drop_left' hhead]
    exact hpayload

/-- A timestamp is none of what the conversion keeps. -/
theorem Converted.putTimestamp {g : γ} (h : Converted tc g data out) (ts : UInt32) :
    Converted tc g data (putTimestamp out ts) := by
  have halters := alters_putTimestamp ts h.long
  have hsecond := halters.byteAt (i := 1) (by omega)
  constructor
  · exact h.srcPt
  · rw [halters.length]
    exact h.long
  · rw [halters.byteAt (by omega)]
    exact h.first
  · rw [RtpRelay.marker, hsecond]
    exact h.marker
  · rw [payloadType, hsecond]
    exact h.dstPt
  · rw [halters.u16At (by omega) (by omega)]
    exact h.seq
  · rw [halters.u32At (by omega)]
    exact h.ssrc
  · rw [halters.drop (by omega)]
    exact h.payload

theorem converted_convertVoice (h : 12 ≤ data.length) (hsrc : payloadType data = tc.srcPt)
    (hout : (convertVoice tc s data).1 = .ok out) : Converted tc s.codec data out := by
  unfold convertVoice at hout
  split at hout
  next => cases hout
  next payload g hpayload =>
    have hrebuilt := converted_rebuilt (g := s.codec) h hsrc (congrArg Prod.fst hpayload)
    cases hout
    split
    next => exact hrebuilt
    next => exact hrebuilt.putTimestamp _

/-- What the transcoding lets through. -/
theorem crosses_transcodePacket (h : 12 ≤ data.length)
    (hout : (transcodePacket tc dtmfIn dtmfOut s data).1 = .ok out) :
    Crosses tc dtmfIn dtmfOut s.codec data out := by
  simp only [transcodePacket, if_neg (Nat.not_lt.mpr h)] at hout
  unfold Crosses
  by_cases hdtmf : isDtmf dtmfIn (payloadType data) = true
  · rw [if_neg (by simp [hdtmf]), if_pos (by simp [hdtmf])] at hout
    rw [if_pos hdtmf]
    cases hout
    exact eventCarried_relayEvent h hdtmf
  · rw [if_neg hdtmf]
    by_cases hcn : payloadType data = 13
    · rw [if_neg (by simp [hcn]), if_pos (by simp [hcn])] at hout
      rw [if_pos hcn]
      cases hout
      rw [relayEvent, if_neg hdtmf]
    · rw [if_neg hcn]
      intro hpayload
      split at hout
      next => cases hout
      next hsrc =>
        rw [if_neg (by simp [hdtmf, hcn]), if_pos ⟨hpayload.1, hpayload.2⟩] at hout
        split at hout
        next => cases hout
        next => exact converted_convertVoice h (by simpa [hdtmf, hcn] using hsrc) hout

end Packets

section Runs

variable {γ : Type} {cfg : RtpSession γ} {P : Primitives} {r r₁ : Relay γ} {leg : Leg} {data plain : Bytes}

theorem decryptSrtp_length {c c' : SrtpCrypto} (h : decryptSrtp P c data = (.ok plain, c')) :
    12 ≤ plain.length := by
  unfold decryptSrtp at h
  split at h
  next => cases h
  next hlong =>
    dsimp only at h
    split at h
    next => cases h
    next =>
      split at h
      next => cases h
      next =>
        split at h
        next => cases h
        next =>
          split at h
          next => cases h
          next =>
            cases h
            simp only [openRtp, List.length_append, applyKeystream_length, List.length_take, List.length_drop]
            omega

theorem le_length_of_media (hclass : inputClass cfg leg data ≠ .junk) (hweb : cfg.webrtcMode leg = false) :
    12 ≤ data.length := by
  unfold inputClass classifyMediaInput at hclass
  split at hclass
  next => exact absurd rfl hclass
  next =>
    split at hclass
    next hrtp => exact (of_decide_eq_true hrtp.2.2).1
    next => simp [hweb] at hclass

/-- Nothing shorter than a header goes on. -/
theorem le_length_of_decryptFrom (hclass : inputClass cfg leg data ≠ .junk)
    (h : decryptFrom cfg P r leg data = (.ok plain, r₁)) : 12 ≤ plain.length := by
  obtain ⟨ctx, ctx', -, hdec, -⟩ | ⟨-, hweb, rfl, -⟩ := decryptFrom_ok h
  · exact decryptSrtp_length hdec
  · exact le_length_of_media hclass hweb

theorem stream_decryptFrom (h : decryptFrom cfg P r leg data = (.ok plain, r₁)) : r₁.stream = r.stream := by
  obtain ⟨ctx, ctx', -, -, rfl⟩ | ⟨-, -, -, rfl⟩ := decryptFrom_ok h
  · rfl
  · rfl

theorem stream_stores (stores : List Store) : (stores.foldl Relay.store r).stream = r.stream := by
  induction stores generalizing r with
  | nil => rfl
  | cons s stores ih =>
      rw [List.foldl_cons, ih]
      cases s with
      | srtp slot ctx | endpoint l addr => rfl

/-- A relation between what a leg with a transcoder received, decrypted, and what
is handed to the other leg for it. -/
def Handed (R : Leg → Transcoder γ → γ → Bytes → Bytes → Prop) (cfg : RtpSession γ) (P : Primitives)
    (r : Relay γ) (e : Event) : Prop :=
  ∀ leg elapsed data source between tc dest handed wire,
    e = .datagram leg elapsed data source between → cfg.transcoder leg = some tc →
    tc.isPassthrough = false → (step cfg P r e).1 = .relayed dest handed wire →
    ∃ plain, (decryptFrom cfg P r leg data).1 = .ok plain ∧ R leg tc (r.stream leg).codec plain handed

theorem handed_crosses (e : Event) :
    Handed (fun leg tc => Crosses tc (cfg.dtmfPt leg) (cfg.dtmfPt leg.other)) cfg P r e := by
  rintro leg elapsed data source between tc dest handed wire rfl htc hpass h
  obtain ⟨hclass, hmedia⟩ := media_of_datagram h
  rw [step, hmedia] at h
  obtain ⟨plain, r₁, r₂, r₃, hpasses⟩ := passes_of_media h
  have hlong := le_length_of_decryptFrom hclass hpasses.decrypted
  have hstream : (between.foldl Relay.store r₁).stream = r.stream := by
    rw [stream_stores, stream_decryptFrom hpasses.decrypted]
    rfl
  refine ⟨plain, ?_, ?_⟩
  · have hdec := congrArg Prod.fst hpasses.decrypted
    refine Eq.trans (Eq.symm ?_) hdec
    exact decryptFrom_congr rfl
  · obtain ⟨tc', s', htc', -, htrans, -⟩ | ⟨hnone, -, -⟩ := transcodeFrom_ok hpasses.transcoded
    · cases htc.symm.trans htc'
      rw [hstream] at htrans
      exact crosses_transcodePacket hlong (congrArg Prod.fst htrans)
    · exact absurd (hnone tc htc) (by simp [hpass])

/-- In every run of the relay, what crosses a transcoded call is converted voice,
an event under the other leg's type and clock, or comfort noise; a packet without
a readable header or without a payload is left out. -/
theorem transcoded_call_crosses (cfg : RtpSession γ) (P : Primitives) (r : Relay γ) (events : List Event) :
    Throughout (next cfg P) (Handed (fun leg tc => Crosses tc (cfg.dtmfPt leg) (cfg.dtmfPt leg.other)) cfg P)
      r events :=
  throughout_always (I := fun _ => True) (fun _ _ _ => trivial) (fun _ e _ => handed_crosses e) trivial

end Runs

/-- Opus to PCMU; the codec is told by the length of what it returns. -/
def opusToPcmu : Transcoder Unit where
  src := .opus
  dst := .pcmu
  srcPt := 111
  dstPt := 0
  srcPt_le := by decide
  dstPt_le := by decide
  convert g payload := (.ok (payload.take 1), g)

/-- A call from Opus to PCMU on which neither side negotiated events. -/
def noEvents : RtpSession Unit where
  webrtcMode _ := false
  icePwdLocal _ := none
  dtmfPt _ := none
  transcoder
    | .a => some opusToPcmu
    | .b => none
  endpointPolicy := ⟨.observe, 5000⟩
  signalled _ := none

def opusPacket : Bytes := [0x80, 111, 0, 1, 0, 0, 0, 0, 0, 0, 0, 7, 1, 2, 3]

/-- Without a negotiated type the voice of a dynamic codec is taken for events
and goes on as it came. -/
theorem dynamic_voice_unconverted :
    ¬Throughout (next noEvents echoPrimitives)
      (Handed (fun leg tc g data out =>
        Converted tc g data out ∨ noEvents.dtmfPt leg = some (payloadType data) ∨ payloadType data = 13)
        noEvents echoPrimitives)
      (.new (fun _ => some (ofOctets 192 0 2 1 4000)) ())
      [.datagram .a 20 opusPacket (ofOctets 192 0 2 7 5000) []] := by
  rintro ⟨hhanded, -⟩
  obtain ⟨plain, hdec, hcrosses⟩ := hhanded .a 20 opusPacket _ [] opusToPcmu (ofOctets 192 0 2 1 4000)
    opusPacket opusPacket rfl rfl rfl (by decide)
  cases hdec
  rcases hcrosses with hconverted | hnegotiated | hnoise
  · exact absurd hconverted.dstPt (by decide)
  · cases hnegotiated
  · exact absurd hnoise (by decide)

end NixiSbc.Transcoding

import NixiSbc.SrtpPacket
import NixiSbc.Transcoding
import NixiSbc.TranscoderSetup

namespace NixiSbc.DtmfRelay

open ByteWords Stun NetAddr SrtpKeys SrtpContext SrtpPacket SdpFormats RtpRelay RelayLoop Transcoding TranscoderSetup StateRuns

section Events

/-- The event that a packet reports. -/
def eventOf (packet : Bytes) : UInt8 := byteAt packet (rtpHeaderLength packet)

def endBit (packet : Bytes) : UInt8 := byteAt packet (rtpHeaderLength packet + 1) &&& 0x80

/-- What reaches the other leg of a packet, in clear and on the wire, is the same
event under the type that the leg has for it. -/
structure DigitCarried (pt : UInt8) (data plain handed wire : Bytes) : Prop where
  payloadType : payloadType wire = pt
  marker : marker wire = marker data
  seq : u16At wire 2 = u16At data 2
  ssrc : u32At wire 8 = u32At data 8
  event : 0 < rtpHeaderLength plain → eventOf handed = eventOf plain ∧ endBit handed = endBit plain

end Events

section

variable {γ : Type} (E : Codecs γ)

/-- A session with the types and the transcoders of the two descriptions. -/
def startRtpSession (base : RtpSession γ) (sdp : Leg → List Char) : RtpSession γ :=
  { base with
    dtmfPt leg := (telephoneEventPt (sdp leg)).map (·.1)
    transcoder := transcoders E (some (sdp .a)) (some (sdp .b)) }

/-- Both codecs of the call can be converted, and they are not the same. -/
structure Converts (sdp : Leg → List Char) : Prop where
  transcodes : Transcodes (sdp .a) (sdp .b)
  codec_ne : legCodec (sdp .a) ≠ legCodec (sdp .b)

/-- The legs have one type for events, or the voice is converted and the other type fits a header. -/
def Renumbers (sdp : Leg → List Char) (pt : Leg → UInt8) (leg : Leg) : Prop :=
  pt leg = pt leg.other ∨ Converts sdp ∧ pt leg.other ≤ 127

end

section Installed

variable {γ : Type} {E : Codecs γ} {sdp : Leg → List Char} {leg : Leg}

theorem isPassthrough_iff (tc : Transcoder γ) :
    tc.isPassthrough = false ↔ tc.src ≠ tc.dst ∧ tc.src.isUnknown = false ∧ tc.dst.isUnknown = false := by
  simp [Transcoder.isPassthrough]

theorem toOption_eq_some {ε α : Type} {x : Except ε α} {a : α} (h : x.toOption = some a) : x = .ok a := by
  cases x with
  | error e => cases h
  | ok b => exact congrArg Except.ok (Option.some.inj h)

/-- What `with_payload_types` gives has the two codecs that it was asked for. -/
theorem withPayloadTypes_codecs {src dst : LegFormat} {tc : Transcoder γ} (h : withPayloadTypes E src dst = .ok tc) :
    tc.src = src.codec ∧ tc.dst = dst.codec := by
  obtain ⟨srcCodec, srcPt, hsrcPt⟩ := src
  obtain ⟨dstCodec, dstPt, hdstPt⟩ := dst
  rw [withPayloadTypes] at h
  dsimp only at h
  split at h
  · cases h
    exact ⟨rfl, rfl⟩
  · split at h
    · cases h
    · cases h
    · split at h
      · cases h
      · cases h
        exact ⟨rfl, rfl⟩

/-- A transcoder that converts is between the codecs of a call that transcodes. -/
theorem converts_of_installed {tc : Transcoder γ} (htc : transcoders E (some (sdp .a)) (some (sdp .b)) leg = some tc)
    (hpass : tc.isPassthrough = false) : Converts sdp := by
  obtain ⟨hne, hsrc, hdst⟩ := (isPassthrough_iff tc).mp hpass
  rw [transcoders] at htc
  split at htc
  next hdecided =>
    cases leg with
    | a =>
        obtain ⟨hsrc', hdst'⟩ := withPayloadTypes_codecs (toOption_eq_some htc)
        rw [hsrc'] at hne hsrc
        rw [hdst'] at hne hdst
        exact ⟨⟨hdecided, hsrc, hdst⟩, hne⟩
    | b =>
        obtain ⟨hsrc', hdst'⟩ := withPayloadTypes_codecs (toOption_eq_some htc)
        rw [hsrc'] at hne hsrc
        rw [hdst'] at hne hdst
        exact ⟨⟨hdecided, hdst, hsrc⟩, hne.symm⟩
  next => cases htc

theorem installed_of_converts (hE : E.Available) (h : Converts sdp) (leg : Leg) :
    ∃ tc, transcoders E (some (sdp .a)) (some (sdp .b)) leg = some tc ∧ tc.isPassthrough = false := by
  obtain ⟨tc, back, htc, hback, hsrc, hdst, -, -, hmirrors⟩ := transcoders_of_transcodes hE h.transcodes
  cases leg with
  | a =>
      refine ⟨tc, htc, (isPassthrough_iff tc).mpr ?_⟩
      rw [hsrc, hdst]
      exact ⟨h.codec_ne, h.transcodes.caller, h.transcodes.callee⟩
  | b =>
      refine ⟨back, hback, (isPassthrough_iff back).mpr ?_⟩
      rw [hmirrors.src, hmirrors.dst, hsrc, hdst]
      exact ⟨h.codec_ne.symm, h.transcodes.callee, h.transcodes.caller⟩

end Installed

section Headers

variable {γ : Type} {cfg : RtpSession γ} {P : Primitives} {r r₁ : Relay γ} {leg : Leg} {data plain handed wire : Bytes}

theorem take_header {p more : Bytes} {h : Nat} (hp : getRtpHeaderLength p = .ok h) :
    (p.take h ++ more).take 12 = p.take 12 := by
  obtain ⟨hle, -, hbase, -, -⟩ := getRtpHeaderLength_ok hp
  rw [List.take_append_of_le_length (by rw [List.length_take]; omega), List.take_take, min_eq_left (by omega)]

/-- A fixed header is never encrypted. -/
theorem decryptSrtp_take {c c' : SrtpCrypto} (h : decryptSrtp P c data = (.ok plain, c')) :
    plain.take 12 = data.take 12 := by
  unfold decryptSrtp at h
  split at h
  next => cases h
  next hlong =>
    dsimp only at h
    split at h
    next => cases h
    next =>
      split at h
      next => cases h
      next =>
        split at h
        next => cases h
        next =>
          split at h
          next => cases h
          next headerLen hheader =>
            cases h
            rw [openRtp, take_header hheader, List.take_take, min_eq_left (by omega)]

theorem encryptRtp_take {c c' : SrtpCrypto} (h : encryptRtp P c handed = (.ok wire, c')) :
    wire.take 12 = handed.take 12 := by
  unfold encryptRtp at h
  split at h
  next => cases h
  next =>
    split at h
    next => cases h
    next headerLen hheader =>
      dsimp only at h
      split at h
      next => cases h
      next =>
        cases h
        rw [sealRtp, List.append_assoc, take_header hheader]

theorem decryptFrom_take (h : decryptFrom cfg P r leg data = (.ok plain, r₁)) : plain.take 12 = data.take 12 := by
  obtain ⟨ctx, ctx', -, hdec, -⟩ | ⟨-, -, rfl, -⟩ := decryptFrom_ok h
  · exact decryptSrtp_take hdec
  · rfl

theorem encryptToward_take (h : encryptToward cfg P r leg handed = (.ok wire, r₁)) : wire.take 12 = handed.take 12 := by
  obtain ⟨ctx, ctx', -, henc, -⟩ | ⟨-, -, rfl, -⟩ := encryptToward_ok h
  · exact encryptRtp_take henc
  · rfl

/-- Between two headers that are the same, a digit is carried as it is in clear. -/
theorem digitCarried_iff {pt : UInt8} (hplain : plain.take 12 = data.take 12) (hwire : wire.take 12 = handed.take 12) :
    DigitCarried pt data plain handed wire ↔ DigitCarried pt plain plain handed handed := by
  have hsecond := byteAt_of_take_eq hplain (by omega : 1 < 12)
  have hsecond' := byteAt_of_take_eq hwire (by omega : 1 < 12)
  have hpt : payloadType wire = payloadType handed := by rw [payloadType, payloadType, hsecond']
  have hmarker : marker wire = marker handed := by rw [marker, marker, hsecond']
  have hmarker' : marker plain = marker data := by rw [marker, marker, hsecond]
  constructor
  · rintro ⟨h₁, h₂, h₃, h₄, h₅⟩
    exact ⟨hpt ▸ h₁, by rw [← hmarker, h₂, hmarker'],
      by rw [← u16At_of_take_eq hwire (by omega), h₃, u16At_of_take_eq hplain (by omega)],
      by rw [← u32At_of_take_eq hwire (by omega), h₄, u32At_of_take_eq hplain (by omega)], h₅⟩
  · rintro ⟨h₁, h₂, h₃, h₄, h₅⟩
    exact ⟨hpt ▸ h₁, by rw [hmarker, h₂, hmarker'],
      by rw [u16At_of_take_eq hwire (by omega), h₃, u16At_of_take_eq hplain (by omega)],
      by rw [u32At_of_take_eq hwire (by omega), h₄, u32At_of_take_eq hplain (by omega)], h₅⟩

end Headers

section Carrying

variable {γ : Type} {tc : Transcoder γ} {dtmfOut : Option UInt8} {plain out : Bytes}

theorem rtpHeaderLength_extension (h : 0 < rtpHeaderLength plain) (hext : byteAt plain 0 &&& 0x10 ≠ 0) :
    12 + (byteAt plain 0 &&& 0x0F).toNat * 4 + 4 ≤ rtpHeaderLength plain := by
  simp only [rtpHeaderLength] at h ⊢
  split_ifs at h ⊢ <;> omega

/-- Neither a type nor a duration enters into the header's length. -/
theorem rtpHeaderLength_of_event (h : Alters (EventField tc plain) plain out) :
    rtpHeaderLength out = rtpHeaderLength plain := by
  have hzero : byteAt out 0 = byteAt plain 0 := by
    refine h.byteAt ?_
    rintro (hi | ⟨-, hi | ⟨-, hi, -⟩⟩) <;> omega
  have hkept (hext : byteAt plain 0 &&& 0x10 ≠ 0) {i : Nat} (hlow : 12 ≤ i)
      (hi : i < 12 + (byteAt plain 0 &&& 0x0F).toNat * 4 + 4) : ¬EventField tc plain i := by
    rintro (he | ⟨-, he | ⟨hpos, he, -⟩⟩)
    · omega
    · omega
    · have hlong := rtpHeaderLength_extension hpos hext
      omega
  simp only [rtpHeaderLength, h.length, hzero]
  by_cases hext : byteAt plain 0 &&& 0x10 ≠ 0
  · rw [if_pos hext, if_pos hext, h.u16At (hkept hext (by omega) (by omega)) (hkept hext (by omega) (by omega))]
  · rw [if_neg hext, if_neg hext]

/-- An event keeps its first byte and its end bit, and of its header everything but the type and the time. -/
theorem eventCarried_kept (h : EventCarried tc dtmfOut plain out) :
    u16At out 2 = u16At plain 2 ∧ u32At out 8 = u32At plain 8 ∧
      (0 < rtpHeaderLength plain → eventOf out = eventOf plain ∧ endBit out = endBit plain) := by
  have hfield (i : Nat) (hi : EventField tc plain i) : i = 1 ∨ 4 ≤ i ∧ i < 8 ∨ 14 ≤ i := by
    rcases hi with hi | ⟨-, hi | ⟨hpos, hi, -⟩⟩
    · exact .inl hi
    · exact .inr (.inl hi)
    · have hlong := le_rtpHeaderLength hpos
      omega
  refine ⟨h.alters.u16At (fun hi => ?_) (fun hi => ?_), h.alters.u32At fun j hj hlt hi => ?_, fun hpos => ?_⟩
  · have := hfield 2 hi
    omega
  · have := hfield 3 hi
    omega
  · have := hfield j hi
    omega
  · have hlong := le_rtpHeaderLength hpos
    have hfirst : ¬EventField tc plain (rtpHeaderLength plain) := by
      rintro (hi | ⟨-, hi | ⟨-, hi, -⟩⟩) <;> omega
    have hnext : ¬EventField tc plain (rtpHeaderLength plain + 1) := by
      rintro (hi | ⟨-, hi | ⟨-, hi, -⟩⟩) <;> omega
    rw [eventOf, eventOf, endBit, endBit, rtpHeaderLength_of_event h.alters, h.alters.byteAt hfirst,
      h.alters.byteAt hnext]
    exact ⟨rfl, rfl⟩

theorem payloadType_le (packet : Bytes) : payloadType packet ≤ 127 := by
  rw [payloadType, UInt8.le_iff_toNat_le, UInt8.toNat_and]
  exact Nat.and_le_right

/-- A converted call carries a digit exactly where the other leg's type is one. -/
theorem digitCarried_of_event {pt : UInt8} (h : EventCarried tc (some pt) plain out) :
    DigitCarried pt plain plain out out ↔ pt ≤ 127 := by
  have hsecond : byteAt out 1 = byteAt plain 1 &&& 0x80 ||| pt := h.second
  constructor
  · intro hcarried
    rw [← hcarried.payloadType]
    exact payloadType_le out
  · intro hpt
    obtain ⟨hmarker, htype⟩ := and_marker_or (byteAt plain 1) hpt
    obtain ⟨hseq, hssrc, hevent⟩ := eventCarried_kept h
    refine ⟨?_, ?_, hseq, hssrc, hevent⟩
    · rw [payloadType, hsecond, htype]
    · rw [RtpRelay.marker, hsecond, hmarker]
      rfl

theorem digitCarried_self {pt : UInt8} : DigitCarried pt plain plain plain plain ↔ payloadType plain = pt :=
  ⟨fun h => h.payloadType, fun h => ⟨h, rfl, rfl, rfl, fun _ => ⟨rfl, rfl⟩⟩⟩

end Carrying

section Runs

variable {γ : Type}

/-- Of a packet that a leg received under its type for events, if it is relayed, the digit
is carried exactly where the legs' descriptions let it. -/
def DigitsFollow (cfg : RtpSession γ) (P : Primitives) (sdp : Leg → List Char) (pt : Leg → UInt8) (r : Relay γ)
    (e : Event) : Prop :=
  ∀ leg elapsed data source between dest handed wire, e = .datagram leg elapsed data source between →
    payloadType data = pt leg → (step cfg P r e).1 = .relayed dest handed wire →
      ∃ plain, (decryptFrom cfg P r leg data).1 = .ok plain ∧
        (DigitCarried (pt leg.other) data plain handed wire ↔ Renumbers sdp pt leg)

variable {E : Codecs γ} {base : RtpSession γ} {P : Primitives} {sdp : Leg → List Char} {pt : Leg → UInt8}

/-- One datagram. -/
theorem digits_follow (hE : E.Available) (hpt : ∀ leg, (telephoneEventPt (sdp leg)).map (·.1) = some (pt leg))
    (r : Relay γ) (e : Event) : DigitsFollow (startRtpSession E base sdp) P sdp pt r e := by
  rintro leg elapsed data source between dest handed wire rfl htype h
  obtain ⟨hclass, hmedia⟩ := media_of_datagram h
  rw [step, hmedia] at h
  obtain ⟨plain, r₁, r₂, r₃, hpasses⟩ := passes_of_media h
  have hplain := decryptFrom_take hpasses.decrypted
  have hlong := le_length_of_decryptFrom hclass hpasses.decrypted
  have htype' : payloadType plain = pt leg := by
    rw [← htype, payloadType, payloadType, byteAt_of_take_eq hplain (by omega)]
  refine ⟨plain, ?_, ?_⟩
  · have hdec := congrArg Prod.fst hpasses.decrypted
    refine Eq.trans (Eq.symm ?_) hdec
    exact decryptFrom_congr rfl
  rw [digitCarried_iff hplain (encryptToward_take hpasses.encrypted)]
  obtain ⟨tc, s', htc, hpass, htrans, -⟩ | ⟨hnone, rfl, -⟩ := transcodeFrom_ok hpasses.transcoded
  · have hconverts : Converts sdp := converts_of_installed htc hpass
    have hcrosses := crosses_transcodePacket hlong (congrArg Prod.fst htrans)
    have hin : (startRtpSession E base sdp).dtmfPt leg = some (pt leg) := hpt leg
    have hout : (startRtpSession E base sdp).dtmfPt leg.other = some (pt leg.other) := hpt leg.other
    rw [hin, hout, Crosses, if_pos (by simp [isDtmf, htype'])] at hcrosses
    rw [digitCarried_of_event hcrosses]
    constructor
    · exact fun hle => .inr ⟨hconverts, hle⟩
    · rintro (hsame | ⟨-, hle⟩)
      · rw [← hsame, ← htype']
        exact payloadType_le plain
      · exact hle
  · rw [digitCarried_self, htype']
    constructor
    · exact .inl
    · rintro (hsame | ⟨hconverts, -⟩)
      · exact hsame
      · obtain ⟨tc, htc, hpass⟩ := installed_of_converts hE hconverts leg
        exact absurd (hnone tc htc) (by simp [hpass])

/-- In every run of a call both of whose legs have a type for events, a digit reaches
the other leg under that leg's type exactly where the two types are the same, or where
the voice is converted between two codecs and the other type fits a header. -/
theorem digits_carried_iff (hE : E.Available) (base : RtpSession γ) (P : Primitives)
    (hpt : ∀ leg, (telephoneEventPt (sdp leg)).map (·.1) = some (pt leg)) (r : Relay γ) (events : List Event) :
    Throughout (next (startRtpSession E base sdp) P) (DigitsFollow (startRtpSession E base sdp) P sdp pt) r events :=
  throughout_always (I := fun _ => True) (fun _ _ _ => trivial) (fun r e _ => digits_follow hE hpt r e) trivial

end Runs

/-- A call in PCMU, with 101 for events on the caller's leg and 96 on the callee's. -/
def pcmuCall : Leg → List Char
  | .a => "v=0\r\nm=audio 4000 RTP/AVP 0 101\r\n".toList ++ "a=rtpmap:101 telephone-event/8000\r\n".toList
  | .b => "v=0\r\nm=audio 5000 RTP/AVP 0 96\r\n".toList ++ "a=rtpmap:96 telephone-event/8000\r\n".toList

def pcmuEvents : Leg → UInt8
  | .a => 101
  | .b => 96

/-- The end of the digit 5. -/
def digit : Bytes := [0x80, 101, 0, 1, 0, 0, 0, 0, 0, 0, 0, 7, 5, 0x8A, 3, 0x20]

def digitArrives : Event := .datagram .a 20 digit (ofOctets 192 0 2 7 5000) []

theorem digits_carried_pcmu :
    Throughout (next (startRtpSession plainCodecs noEvents pcmuCall) echoPrimitives)
      (DigitsFollow (startRtpSession plainCodecs noEvents pcmuCall) echoPrimitives pcmuCall pcmuEvents)
      (.new (fun _ => some (ofOctets 192 0 2 1 4000)) ()) [digitArrives] := by
  refine digits_carried_iff plainCodecs_available noEvents echoPrimitives (fun leg => ?_) _ _
  cases leg with
  | a => decide +kernel
  | b => decide +kernel

/-- Without a transcoder the digit keeps the type of the leg that it came from. -/
theorem common_codec_digit_lost :
    (step (startRtpSession plainCodecs noEvents pcmuCall) echoPrimitives
        (.new (fun _ => some (ofOctets 192 0 2 1 4000)) ()) digitArrives).1 =
      .relayed (ofOctets 192 0 2 1 4000) digit digit ∧
    payloadType digit = pcmuEvents .a ∧ ∀ plain, ¬DigitCarried (pcmuEvents .b) digit plain digit digit := by
  refine ⟨by decide +kernel, by decide, fun plain hcarried => ?_⟩
  exact absurd hcarried.payloadType (by decide)

end NixiSbc.DtmfRelay

import NixiSbc.RelayLoop
import NixiSbc.SdpFormats

namespace NixiSbc.TranscoderSetup

open ByteWords Diagnostics TextScan TextFields SdpFormats RtpRelay RelayLoop

def codecPt : Codec → UInt8
  | .pcmu => 0
  | .pcma => 8
  | .opus => 111
  | .unknown p => p

/-- The transcoder's view of a format. -/
def formatCodec (f : AudioFormat) : Codec :=
  if f.name = "pcmu".toList then .pcmu
  else if f.name = "pcma".toList then .pcma
  else if f.name = "opus".toList then .opus
  else .unknown f.pt

def sdpPrimaryCodec (sdp : List Char) : Codec := ((sdpPrimaryFormat sdp).map formatCodec).getD (.unknown 0)

/-- The codecs of two descriptions are compared by name and rate, not by payload type. -/
def needsTranscoding (callerSdp calleeSdp : List Char) : Bool :=
  let voice (sdp : List Char) := ((sdpAudioFormats sdp).filter (·.isVoice)).map fun f => (f.name, f.clockRate)
  let caller := voice callerSdp
  let callee := voice calleeSdp
  if caller = [] ∨ callee = [] then false else !caller.any fun c => c ∈ callee

inductive TranscodeError
  | noDecoder (pt : UInt8) (dst : Codec)
  | noEncoder (pt : UInt8) (src : Codec)
  | opus
  deriving DecidableEq

/-- What the codecs compute, and whether Opus has given what was asked of it. -/
structure Codecs (γ : Type) where
  convert : Codec → Codec → γ → Bytes → Except Error Bytes × γ
  opusEncoder : Bool
  opusDecoder : Bool

/-- The two constructors of Opus succeed. -/
structure Codecs.Available {γ : Type} (E : Codecs γ) : Prop where
  encoder : E.opusEncoder = true
  decoder : E.opusDecoder = true

/-- A leg of the call, as its description presents it. -/
structure LegFormat where
  codec : Codec
  pt : UInt8
  pt_le : pt ≤ 127

section

variable {γ : Type} (E : Codecs γ)

def withPayloadTypes (src dst : LegFormat) : Except TranscodeError (Transcoder γ) :=
  let tc : Transcoder γ := ⟨src.codec, dst.codec, src.pt, dst.pt, src.pt_le, dst.pt_le, E.convert src.codec dst.codec⟩
  if src.codec = dst.codec then .ok tc
  else
    match src.codec, dst.codec with
    | .unknown pt, dst => .error (.noDecoder pt dst)
    | src, .unknown pt => .error (.noEncoder pt src)
    | src, dst =>
        if dst = .opus ∧ E.opusEncoder = false ∨ src = .opus ∧ E.opusDecoder = false then .error .opus else .ok tc

def isWebrtcSdp (sdp : List Char) : Bool :=
  (findSub "UDP/TLS/RTP/SAVPF".toList sdp).isSome || (findSub "udp/tls/rtp/savpf".toList sdp).isSome

/-- A browser lists G.711 next to Opus and sends Opus. -/
def doTranscode (callerSdp calleeSdp : List Char) : Bool :=
  if isWebrtcSdp callerSdp then sdpPrimaryCodec calleeSdp ≠ .opus
  else if isWebrtcSdp calleeSdp then sdpPrimaryCodec callerSdp ≠ .opus
  else needsTranscoding callerSdp calleeSdp

def legCodec (sdp : List Char) : Codec := if isWebrtcSdp sdp then .opus else sdpPrimaryCodec sdp

/-- The number of the preferred format where that has the codec, else the codec's default. -/
def legPt (sdp : List Char) : UInt8 :=
  (((sdpPrimaryFormat sdp).filter (formatCodec · = legCodec sdp)).map (·.pt)).getD (codecPt (legCodec sdp))

theorem pt_le_of_mem {sdp : List Char} {f : AudioFormat} (h : f ∈ sdpAudioFormats sdp) : f.pt ≤ 127 := by
  rw [sdpAudioFormats] at h
  split at h
  · exact absurd h List.not_mem_nil
  · obtain ⟨pt, hpt, rfl⟩ := List.mem_map.mp h
    have hle : pt ≤ 127 := of_decide_eq_true (List.mem_filter.mp hpt).2
    rw [formatOf]
    split
    · exact hle
    · exact hle

theorem mem_of_primary {sdp : List Char} {f : AudioFormat} (h : sdpPrimaryFormat sdp = some f) :
    f ∈ sdpAudioFormats sdp := List.mem_of_find?_eq_some h

theorem codecPt_formatCodec_le {f : AudioFormat} (h : f.pt ≤ 127) : codecPt (formatCodec f) ≤ 127 := by
  rw [formatCodec]
  split_ifs
  · decide
  · decide
  · decide
  · exact h

theorem codecPt_legCodec_le (sdp : List Char) : codecPt (legCodec sdp) ≤ 127 := by
  rw [legCodec]
  split
  · decide
  · rw [sdpPrimaryCodec]
    cases hprimary : sdpPrimaryFormat sdp with
    | none => decide
    | some f => exact codecPt_formatCodec_le (pt_le_of_mem (mem_of_primary hprimary))

theorem legPt_le (sdp : List Char) : legPt sdp ≤ 127 := by
  rw [legPt]
  cases hformat : (sdpPrimaryFormat sdp).filter (formatCodec · = legCodec sdp) with
  | none => exact codecPt_legCodec_le sdp
  | some f => exact pt_le_of_mem (mem_of_primary (Option.filter_eq_some_iff.mp hformat).1)

def legFormat (sdp : List Char) : LegFormat := ⟨legCodec sdp, legPt sdp, legPt_le sdp⟩

/-- The transcoders that a session is given, from a leg toward the other one. -/
def transcoders (sdpCaller sdpCallee : Option (List Char)) : Leg → Option (Transcoder γ) :=
  match sdpCaller, sdpCallee with
  | some callerSdp, some calleeSdp =>
      if doTranscode callerSdp calleeSdp then
        fun
          | .a => (withPayloadTypes E (legFormat callerSdp) (legFormat calleeSdp)).toOption
          | .b => (withPayloadTypes E (legFormat calleeSdp) (legFormat callerSdp)).toOption
      else fun _ => none
  | _, _ => fun _ => none

end

/-- Transcoding is decided on, between codecs that can be converted. -/
structure Transcodes (callerSdp calleeSdp : List Char) : Prop where
  decided : doTranscode callerSdp calleeSdp = true
  caller : (legCodec callerSdp).isUnknown = false
  callee : (legCodec calleeSdp).isUnknown = false

/-- Where a description has a format with the codec, the number is that of one. -/
def Numbers (sdp : List Char) (codec : Codec) (pt : UInt8) : Prop :=
  (∃ f ∈ sdpAudioFormats sdp, formatCodec f = codec) →
    ∃ f ∈ sdpAudioFormats sdp, formatCodec f = codec ∧ f.pt = pt

structure Mirrors {γ : Type} (tc back : Transcoder γ) : Prop where
  src : back.src = tc.dst
  dst : back.dst = tc.src
  srcPt : back.srcPt = tc.dstPt
  dstPt : back.dstPt = tc.srcPt

/-- Both transcoders are there, with the numbers of the two descriptions. -/
def CarriesNumbers {γ : Type} (E : Codecs γ) (callerSdp calleeSdp : List Char) : Prop :=
  ∃ tc back, transcoders E (some callerSdp) (some calleeSdp) .a = some tc ∧
    transcoders E (some callerSdp) (some calleeSdp) .b = some back ∧
      Numbers callerSdp tc.src tc.srcPt ∧ Numbers calleeSdp tc.dst tc.dstPt ∧ Mirrors tc back

/-- A browser prefers Opus, or has none of it, or has the number 111 for it. -/
def Told (sdp : List Char) : Prop :=
  isWebrtcSdp sdp = true → sdpPrimaryCodec sdp = .opus ∨ (∀ f ∈ sdpAudioFormats sdp, formatCodec f ≠ .opus) ∨
    ∃ f ∈ sdpAudioFormats sdp, formatCodec f = .opus ∧ f.pt = 111

section Numbers

variable {sdp : List Char}

theorem primary_of_codec {codec : Codec} (h : sdpPrimaryCodec sdp = codec) (hknown : codec.isUnknown = false) :
    ∃ f, sdpPrimaryFormat sdp = some f ∧ formatCodec f = codec := by
  rw [sdpPrimaryCodec] at h
  cases hprimary : sdpPrimaryFormat sdp with
  | none =>
      rw [hprimary] at h
      rw [← h] at hknown
      cases hknown
  | some f =>
      rw [hprimary] at h
      exact ⟨f, rfl, h⟩

/-- A preferred format with the codec of the leg gives the leg its number. -/
theorem legPt_of_primary {f : AudioFormat} (h : sdpPrimaryFormat sdp = some f) (hcodec : formatCodec f = legCodec sdp) :
    legPt sdp = f.pt := by
  rw [legPt, h, Option.filter_some, if_pos (decide_eq_true hcodec)]
  rfl

theorem legPt_of_other (h : sdpPrimaryCodec sdp ≠ .opus) (hweb : isWebrtcSdp sdp = true) : legPt sdp = 111 := by
  have hcodec : legCodec sdp = .opus := if_pos hweb
  have hnone : (sdpPrimaryFormat sdp).filter (formatCodec · = legCodec sdp) = none := by
    rw [Option.filter_eq_none_iff]
    intro f hf hopus
    apply h
    rw [sdpPrimaryCodec, hf, Option.map_some, Option.getD_some, of_decide_eq_true hopus, hcodec]
  rw [legPt, hnone, hcodec]
  rfl

theorem numbers_iff_told (hknown : (legCodec sdp).isUnknown = false) :
    Numbers sdp (legCodec sdp) (legPt sdp) ↔ Told sdp := by
  by_cases hprimary : sdpPrimaryCodec sdp = legCodec sdp
  · obtain ⟨f, hf, hcodec⟩ := primary_of_codec hprimary hknown
    refine iff_of_true (fun _ => ⟨f, mem_of_primary hf, hcodec, (legPt_of_primary hf hcodec).symm⟩) fun hweb => .inl ?_
    rw [hprimary]
    exact if_pos hweb
  · have hweb : isWebrtcSdp sdp = true := by
      by_contra hplain
      exact hprimary (if_neg hplain).symm
    have hcodec : legCodec sdp = .opus := if_pos hweb
    rw [hcodec] at hprimary ⊢
    rw [Numbers, Told, legPt_of_other hprimary hweb]
    constructor
    · intro h _
      by_cases hsome : ∃ f ∈ sdpAudioFormats sdp, formatCodec f = .opus
      · exact .inr (.inr (h hsome))
      · exact .inr (.inl fun f hf hopus => hsome ⟨f, hf, hopus⟩)
    · rintro h ⟨f, hf, hopus⟩
      rcases h hweb with hmain | hnone | htold
      · exact absurd hmain hprimary
      · exact absurd hopus (hnone f hf)
      · exact htold

end Numbers

section Setup

variable {γ : Type} {E : Codecs γ} {callerSdp calleeSdp : List Char}

/-- Codecs that are known have a transcoder, once Opus is there. -/
theorem withPayloadTypes_ok (hE : E.Available) {src dst : LegFormat} (hsrc : src.codec.isUnknown = false)
    (hdst : dst.codec.isUnknown = false) :
    ∃ tc, withPayloadTypes E src dst = .ok tc ∧ tc.src = src.codec ∧ tc.dst = dst.codec ∧ tc.srcPt = src.pt ∧
      tc.dstPt = dst.pt := by
  refine ⟨⟨src.codec, dst.codec, src.pt, dst.pt, src.pt_le, dst.pt_le, E.convert src.codec dst.codec⟩, ?_, rfl, rfl,
    rfl, rfl⟩
  obtain ⟨srcCodec, srcPt, hsrcPt⟩ := src
  obtain ⟨dstCodec, dstPt, hdstPt⟩ := dst
  cases srcCodec <;> cases dstCodec <;> simp_all [withPayloadTypes, Codec.isUnknown, hE.encoder, hE.decoder]

theorem transcoders_of_transcodes (hE : E.Available) (h : Transcodes callerSdp calleeSdp) :
    ∃ tc back, transcoders E (some callerSdp) (some calleeSdp) .a = some tc ∧
      transcoders E (some callerSdp) (some calleeSdp) .b = some back ∧ tc.src = legCodec callerSdp ∧
        tc.dst = legCodec calleeSdp ∧ tc.srcPt = legPt callerSdp ∧ tc.dstPt = legPt calleeSdp ∧ Mirrors tc back := by
  have hcaller : (legFormat callerSdp).codec.isUnknown = false := h.caller
  have hcallee : (legFormat calleeSdp).codec.isUnknown = false := h.callee
  obtain ⟨tc, htc, hsrc, hdst, hsrcPt, hdstPt⟩ := withPayloadTypes_ok hE hcaller hcallee
  obtain ⟨back, hback, hsrc', hdst', hsrcPt', hdstPt'⟩ := withPayloadTypes_ok hE hcallee hcaller
  refine ⟨tc, back, ?_, ?_, hsrc, hdst, hsrcPt, hdstPt, ?_⟩
  · rw [transcoders, if_pos h.decided]
    exact congrArg Except.toOption htc
  · rw [transcoders, if_pos h.decided]
    exact congrArg Except.toOption hback
  · exact ⟨hsrc'.trans hdst.symm, hdst'.trans hsrc.symm, hsrcPt'.trans hdstPt.symm, hdstPt'.trans hsrcPt.symm⟩

/-- The transcoders of a call carry the numbers of both descriptions exactly where
each browser among them says what its Opus is in the place that is looked at. -/
theorem carries_numbers_iff (hE : E.Available) (h : Transcodes callerSdp calleeSdp) :
    CarriesNumbers E callerSdp calleeSdp ↔ Told callerSdp ∧ Told calleeSdp := by
  obtain ⟨tc, back, htc, hback, hsrc, hdst, hsrcPt, hdstPt, hmirrors⟩ := transcoders_of_transcodes hE h
  rw [← numbers_iff_told h.caller, ← numbers_iff_told h.callee, ← hsrc, ← hdst, ← hsrcPt, ← hdstPt]
  constructor
  · rintro ⟨tc', back', htc', -, hcaller, hcallee, -⟩
    obtain rfl := Option.some.inj (htc.symm.trans htc')
    exact ⟨hcaller, hcallee⟩
  · rintro ⟨hcaller, hcallee⟩
    exact ⟨tc, back, htc, hback, hcaller, hcallee, hmirrors⟩

end Setup

def plainCodecs : Codecs Unit where
  convert _ _ g payload := (.ok payload, g)
  opusEncoder := true
  opusDecoder := true

theorem plainCodecs_available : plainCodecs.Available := ⟨rfl, rfl⟩

/-- A browser that has 109 for Opus, with its formats in some order. -/
def browserSdp (formats : List Char) : List Char :=
  "v=0\r\nm=audio 4000 UDP/TLS/RTP/SAVPF ".toList ++ formats ++ "\r\na=rtpmap:109 opus/48000/2\r\n".toList

def trunkSdp : List Char := "v=0\r\nm=audio 5000 RTP/AVP 8\r\n".toList

theorem carries_numbers_opusFirst : CarriesNumbers plainCodecs (browserSdp "109 0".toList) trunkSdp :=
  (carries_numbers_iff plainCodecs_available
    ⟨by decide +kernel, by decide +kernel, by decide +kernel⟩).mpr
      ⟨fun _ => .inl (by decide +kernel), fun h => absurd h (by decide +kernel)⟩

/-- A browser that lists G.711 first has its Opus looked for under 111. -/
theorem g711First_misnumbered : ¬CarriesNumbers plainCodecs (browserSdp "0 109".toList) trunkSdp := by
  have htranscodes : Transcodes (browserSdp "0 109".toList) trunkSdp :=
    ⟨by decide +kernel, by decide +kernel, by decide +kernel⟩
  obtain ⟨tc, _, htc, _, hsrc, _, hsrcPt, _, _⟩ := transcoders_of_transcodes plainCodecs_available htranscodes
  rintro ⟨tc', _, htc', _, hnumbers, _⟩
  obtain rfl := Option.some.inj (htc.symm.trans htc')
  rw [hsrc, hsrcPt, numbers_iff_told htranscodes.caller] at hnumbers
  rcases hnumbers (by decide +kernel) with hprimary | hnone | htold
  · revert hprimary
    decide +kernel
  · revert hnone
    decide +kernel
  · revert htold
    decide +kernel

end NixiSbc.TranscoderSetup

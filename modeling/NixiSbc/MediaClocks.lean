import NixiSbc.Transcoding
import Mathlib.Data.Int.ModEq
import Mathlib.Tactic.Ring

namespace NixiSbc.MediaClocks

open ByteWords RtpRelay Transcoding StateRuns

section Turns

variable {W src : Int}

/-- Of the turns of a clock, those that the rate divides come out whole. -/
theorem ediv_add_turns (hsrc : 0 < src) (q dst x : Int) :
    (q * W * dst + x) / src = (q * dst % src * W + x) / src + q * dst / src * W := by
  have hparts : q * dst % src + src * (q * dst / src) = q * dst := Int.emod_add_mul_ediv _ _
  have hturns : q * W * dst + x = q * dst % src * W + x + src * (q * dst / src * W) := by
    calc q * W * dst + x = q * dst * W + x := by ring
      _ = (q * dst % src + src * (q * dst / src)) * W + x := by rw [hparts]
      _ = q * dst % src * W + x + src * (q * dst / src * W) := by ring
  rw [hturns, Int.add_mul_ediv_left _ _ (by omega)]

/-- A remainder moves the quotient by less than a turn, and by something. -/
theorem ediv_between {r : Int} (hr : 0 < r) (hlt : r < src) (hW : src < W) (x : Int) :
    x / src < (r * W + x) / src ∧ (r * W + x) / src < x / src + W := by
  have hsrc : 0 < src := by omega
  have hrest : 0 ≤ x % src ∧ x % src < src := ⟨Int.emod_nonneg x (by omega), Int.emod_lt_of_pos x hsrc⟩
  have hx : x % src + src * (x / src) = x := Int.emod_add_mul_ediv x src
  constructor
  · have hle : 1 * W ≤ r * W := Int.mul_le_mul_of_nonneg_right hr (by omega)
    have hmono : (src + x) / src ≤ (r * W + x) / src := Int.ediv_le_ediv hsrc (by omega)
    rw [Int.add_ediv_of_dvd_left dvd_rfl, Int.ediv_self (by omega)] at hmono
    omega
  · apply Int.ediv_lt_of_lt_mul hsrc
    have hle : r * W ≤ (src - 1) * W := Int.mul_le_mul_of_nonneg_right (by omega) (by omega)
    have hspread : (x / src + W) * src = src * (x / src) + (src - 1) * W + W := by ring
    omega

/-- Whole turns of the one clock are whole turns of the other where the rates say so. -/
theorem turns_modEq_iff (hsrc : 0 < src) (hW : src < W) (q dst x : Int) :
    (q * W * dst + x) / src ≡ x / src [ZMOD W] ↔ src ∣ q * dst := by
  rw [ediv_add_turns hsrc, Int.dvd_iff_emod_eq_zero]
  have hr := Int.emod_nonneg (q * dst) (show src ≠ 0 by omega)
  constructor
  · intro h
    by_contra hne
    obtain ⟨hlow, hhigh⟩ := ediv_between (by omega) (Int.emod_lt_of_pos (q * dst) hsrc) hW x
    have hrest : (q * dst % src * W + x) / src ≡ x / src [ZMOD W] := by
      simpa [Int.ModEq] using h
    have hle := Int.le_of_dvd (by omega) hrest.symm.dvd
    omega
  · intro h
    rw [h, zero_mul, zero_add]
    simp [Int.ModEq]

end Turns

section Stamps

theorem u32At_putTimestamp {p : Bytes} (ts : UInt32) (h : 12 ≤ p.length) :
    u32At (putTimestamp p ts) 4 = ts := by
  have hfront : (p.take 4).length = 4 := by
    rw [List.length_take]
    omega
  have hat := u32At_append_right (p.take 4) (beBytes 4 ts.toNat ++ p.drop 8) 0
  rw [hfront, u32At_beBytes] at hat
  rw [putTimestamp, overwrite, beBytes_length, List.append_assoc]
  exact hat

theorem u32At_rescaleDuration (p : Bytes) (srcRate dstRate : Nat) :
    u32At (rescaleDuration p srcRate dstRate) 4 = u32At p 4 := by
  apply (alters_rescaleDuration p srcRate dstRate).u32At
  rintro j - hj ⟨hpos, hge, -⟩
  have := le_rtpHeaderLength hpos
  omega

/-- An event carries the timestamp that a voice packet of its time would. -/
theorem u32At_rescaleEvent (m : TimestampMap) {p : Bytes} {srcRate dstRate : Nat} (h : 12 ≤ p.length)
    (hne : srcRate ≠ dstRate) (hsrc : srcRate ≠ 0) (hdst : dstRate ≠ 0) :
    u32At (m.rescaleEvent p srcRate dstRate).1 4 = (m.map (u32At p 4) srcRate dstRate).1 ∧
      (m.rescaleEvent p srcRate dstRate).2 = (m.map (u32At p 4) srcRate dstRate).2 := by
  have hgoes : ¬(srcRate = dstRate ∨ srcRate = 0 ∨ dstRate = 0 ∨ p.length < 12) := by omega
  rw [TimestampMap.rescaleEvent, if_neg hgoes]
  exact ⟨(u32At_rescaleDuration _ _ _).trans (u32At_putTimestamp _ h), rfl⟩

end Stamps

/-- A packet whose timestamp is rewritten: of a voice packet the timestamp alone
is given to the map, of an event the whole packet. -/
inductive Stamped
  | voice (ts : UInt32)
  | event (packet : Bytes) (whole : 12 ≤ packet.length)

def Stamped.timestamp : Stamped → UInt32
  | .voice ts => ts
  | .event packet _ => u32At packet 4

/-- The timestamp that a packet leaves with. -/
def rewrite (srcRate dstRate : UInt32) (m : TimestampMap) : Stamped → UInt32 × TimestampMap
  | .voice ts => m.map ts srcRate.toNat dstRate.toNat
  | .event packet _ =>
      let r := m.rescaleEvent packet srcRate.toNat dstRate.toNat
      (u32At r.1 4, r.2)

/-- A packet with the instant of the sender's clock that it stands for. -/
structure Arrival where
  time : Int
  packet : Stamped
  stamped : (packet.timestamp.toNat : Int) = time % 2 ^ 32

/-- Any instant can be spoken at. -/
def Arrival.spoken (time : Int) : Arrival where
  time := time
  packet := .voice (UInt32.ofNat (time % 2 ^ 32).toNat)
  stamped := by
    have : ((UInt32.ofNat (time % 2 ^ 32).toNat).toNat : Int) = ((time % 2 ^ 32).toNat % 2 ^ 32 : Nat) := by
      rw [UInt32.toNat_ofNat']
    rw [Stamped.timestamp, this]
    omega

/-- The timestamps that a stream leaves with. -/
def rewritten (srcRate dstRate : UInt32) (stream : List Arrival) : List UInt32 :=
  (runAll (rewrite srcRate dstRate) .new (stream.map (·.packet))).1

/-- Between two packets the other leg sees as much of its own clock pass as of the
sender's. -/
def Advances (srcRate dstRate : UInt32) (first a : Arrival) (outFirst out : UInt32) : Prop :=
  (out.toNat : Int) - outFirst.toNat ≡
    (a.time - first.time) * dstRate.toNat / srcRate.toNat [ZMOD 2 ^ 32]

instance (srcRate dstRate : UInt32) (first a : Arrival) (outFirst out : UInt32) :
    Decidable (Advances srcRate dstRate first a outFirst out) :=
  inferInstanceAs (Decidable (_ ≡ _ [ZMOD 2 ^ 32]))

section

variable {srcRate dstRate : UInt32} {m : TimestampMap}

/-- The base that the first packet leaves. -/
structure Latched (srcRate dstRate first : UInt32) (m : TimestampMap) : Prop where
  baseIn : m.baseIn = some first
  baseOut : m.baseOut = rescaled first srcRate.toNat dstRate.toNat

/-- What a packet leaves with once a base is latched. -/
def offset (srcRate dstRate first ts : UInt32) : UInt32 :=
  rescaled first srcRate.toNat dstRate.toNat + rescaled (ts - first) srcRate.toNat dstRate.toNat

theorem rewrite_eq (hne : srcRate ≠ dstRate) (hsrc : srcRate ≠ 0) (hdst : dstRate ≠ 0) (p : Stamped) :
    rewrite srcRate dstRate m p = m.map p.timestamp srcRate.toNat dstRate.toNat := by
  have hrates : srcRate.toNat ≠ dstRate.toNat := fun h => hne (UInt32.toNat_inj.mp h)
  have hsrc' : srcRate.toNat ≠ 0 := fun h => hsrc (UInt32.toNat_inj.mp h)
  have hdst' : dstRate.toNat ≠ 0 := fun h => hdst (UInt32.toNat_inj.mp h)
  cases p with
  | voice ts => rfl
  | event packet whole =>
      obtain ⟨hstamp, hmap⟩ := u32At_rescaleEvent m whole hrates hsrc' hdst'
      exact Prod.ext hstamp hmap

theorem map_eq (hne : srcRate ≠ dstRate) (hsrc : srcRate ≠ 0) (hdst : dstRate ≠ 0) (ts : UInt32) :
    m.map ts srcRate.toNat dstRate.toNat =
      let m := if m.baseIn = none then ⟨some ts, rescaled ts srcRate.toNat dstRate.toNat⟩ else m
      (m.baseOut + rescaled (ts - m.baseIn.getD ts) srcRate.toNat dstRate.toNat, m) := by
  have hgoes : ¬(srcRate.toNat = dstRate.toNat ∨ dstRate.toNat = 0 ∨ srcRate.toNat = 0) := by
    rintro (h | h | h)
    · exact hne (UInt32.toNat_inj.mp h)
    · exact hdst (UInt32.toNat_inj.mp h)
    · exact hsrc (UInt32.toNat_inj.mp h)
  rw [TimestampMap.map, if_neg hgoes]

theorem rewrite_new (hne : srcRate ≠ dstRate) (hsrc : srcRate ≠ 0) (hdst : dstRate ≠ 0) (p : Stamped) :
    Latched srcRate dstRate p.timestamp (rewrite srcRate dstRate .new p).2 ∧
      (rewrite srcRate dstRate .new p).1 = offset srcRate dstRate p.timestamp p.timestamp := by
  rw [rewrite_eq hne hsrc hdst, map_eq hne hsrc hdst]
  exact ⟨⟨rfl, rfl⟩, rfl⟩

theorem Latched.rewrite (hne : srcRate ≠ dstRate) (hsrc : srcRate ≠ 0) (hdst : dstRate ≠ 0)
    {first : UInt32} (h : Latched srcRate dstRate first m) (p : Stamped) :
    MediaClocks.rewrite srcRate dstRate m p = (offset srcRate dstRate first p.timestamp, m) := by
  have hbase : m.baseIn ≠ none := by simp [h.baseIn]
  rw [rewrite_eq hne hsrc hdst, map_eq hne hsrc hdst]
  simp only [if_neg hbase]
  rw [h.baseIn, h.baseOut]
  rfl

/-- Once latched, the base stays, and each packet is measured from it. -/
theorem Latched.runAll (hne : srcRate ≠ dstRate) (hsrc : srcRate ≠ 0) (hdst : dstRate ≠ 0)
    {first : UInt32} (h : Latched srcRate dstRate first m) (packets : List Stamped) :
    StateRuns.runAll (MediaClocks.rewrite srcRate dstRate) m packets =
      (packets.map fun p => offset srcRate dstRate first p.timestamp, m) := by
  induction packets with
  | nil => rfl
  | cons p packets ih => simp only [StateRuns.runAll, h.rewrite hne hsrc hdst, ih, List.map_cons]

/-- Every packet is measured from the first one. -/
theorem rewritten_cons (hne : srcRate ≠ dstRate) (hsrc : srcRate ≠ 0) (hdst : dstRate ≠ 0)
    (first : Arrival) (stream : List Arrival) :
    rewritten srcRate dstRate (first :: stream) =
      (first :: stream).map fun a => offset srcRate dstRate first.packet.timestamp a.packet.timestamp := by
  obtain ⟨hlatched, hout⟩ := rewrite_new hne hsrc hdst first.packet
  have hrest := hlatched.runAll hne hsrc hdst (stream.map (·.packet))
  simp only [rewritten, List.map_cons, StateRuns.runAll, hout, hrest, List.map_map]
  rfl

theorem toNat_sub_modEq (a b : UInt32) : ((a - b).toNat : Int) ≡ a.toNat - b.toNat [ZMOD 2 ^ 32] := by
  have ha := a.toNat_lt
  have hb := b.toNat_lt
  rw [UInt32.toNat_sub, Int.ModEq]
  omega

theorem toNat_add_modEq (a b : UInt32) : ((a + b).toNat : Int) ≡ a.toNat + b.toNat [ZMOD 2 ^ 32] := by
  rw [UInt32.toNat_add, Int.ModEq]
  omega

theorem rescaled_modEq (n : UInt32) (srcRate dstRate : Nat) :
    ((rescaled n srcRate dstRate).toNat : Int) ≡ n.toNat * dstRate / srcRate [ZMOD 2 ^ 32] := by
  rw [rescaled, UInt32.toNat_ofNat']
  push_cast
  exact Int.mod_modEq _ _

/-- The difference of two stamps is what has passed between them, less its whole turns. -/
theorem stamp_sub (first a : Arrival) :
    ((a.packet.timestamp - first.packet.timestamp).toNat : Int) = (a.time - first.time) % 2 ^ 32 := by
  have hmod := toNat_sub_modEq a.packet.timestamp first.packet.timestamp
  have hlt := (a.packet.timestamp - first.packet.timestamp).toNat_lt
  rw [a.stamped, first.stamped, Int.ModEq] at hmod
  omega

/-- Only what the turns of the sender's clock come to on the other leg can be lost. -/
theorem advances_offset_iff (hsrc : srcRate ≠ 0) (first a : Arrival) :
    Advances srcRate dstRate first a
        (offset srcRate dstRate first.packet.timestamp first.packet.timestamp)
        (offset srcRate dstRate first.packet.timestamp a.packet.timestamp) ↔
      (srcRate.toNat : Int) ∣ (a.time - first.time) / 2 ^ 32 * dstRate.toNat := by
  have hpos : (0 : Int) < srcRate.toNat := by
    have : srcRate.toNat ≠ 0 := fun h => hsrc (UInt32.toNat_inj.mp h)
    omega
  have hlt : (srcRate.toNat : Int) < 2 ^ 32 := by
    have := srcRate.toNat_lt
    omega
  have hturns : (a.time - first.time) * dstRate.toNat =
      (a.time - first.time) / 2 ^ 32 * 2 ^ 32 * dstRate.toNat +
        (a.time - first.time) % 2 ^ 32 * dstRate.toNat := by
    rw [← add_mul, Int.ediv_mul_add_emod]
  have hself : offset srcRate dstRate first.packet.timestamp first.packet.timestamp =
      rescaled first.packet.timestamp srcRate.toNat dstRate.toNat := by
    simp [offset, rescaled]
  have hout : ((offset srcRate dstRate first.packet.timestamp a.packet.timestamp).toNat : Int) -
      (rescaled first.packet.timestamp srcRate.toNat dstRate.toNat).toNat ≡
        (a.time - first.time) % 2 ^ 32 * dstRate.toNat / srcRate.toNat [ZMOD 2 ^ 32] := by
    have hsum := toNat_add_modEq (rescaled first.packet.timestamp srcRate.toNat dstRate.toNat)
      (rescaled (a.packet.timestamp - first.packet.timestamp) srcRate.toNat dstRate.toNat)
    have hdelta := rescaled_modEq (a.packet.timestamp - first.packet.timestamp) srcRate.toNat dstRate.toNat
    rw [stamp_sub] at hdelta
    have hsub := hsum.sub_right ((rescaled first.packet.timestamp srcRate.toNat dstRate.toNat).toNat : Int)
    rw [add_sub_cancel_left] at hsub
    exact hsub.trans hdelta
  rw [Advances, hself, hturns, ← turns_modEq_iff hpos hlt]
  exact ⟨fun h => h.symm.trans hout, fun h => hout.trans h.symm⟩

/-- How far a packet is from the first one is kept exactly where the whole turns
between them, of which an earlier packet has a negative number, make a whole
number of turns on the other leg. -/
theorem timestamp_advances_iff (hne : srcRate ≠ dstRate) (hsrc : srcRate ≠ 0) (hdst : dstRate ≠ 0)
    (first : Arrival) (stream : List Arrival) (k : Nat) {a : Arrival}
    (ha : (first :: stream)[k]? = some a) :
    ∃ outFirst out, (rewritten srcRate dstRate (first :: stream))[0]? = some outFirst ∧
      (rewritten srcRate dstRate (first :: stream))[k]? = some out ∧
      (Advances srcRate dstRate first a outFirst out ↔
        (srcRate.toNat : Int) ∣ (a.time - first.time) / 2 ^ 32 * dstRate.toNat) := by
  rw [rewritten_cons hne hsrc hdst]
  refine ⟨_, offset srcRate dstRate first.packet.timestamp a.packet.timestamp, rfl, ?_,
    advances_offset_iff hsrc first a⟩
  rw [List.getElem?_map, ha, Option.map_some]

/-- A frame of Opus that another one has overtaken. -/
theorem timestamp_advances_overtaken :
    ∃ outFirst out, (rewritten 48000 8000 [.spoken 960, .spoken 0])[0]? = some outFirst ∧
      (rewritten 48000 8000 [.spoken 960, .spoken 0])[1]? = some out ∧
      (Advances 48000 8000 (.spoken 960) (.spoken 0) outFirst out ↔
        ((48000 : UInt32).toNat : Int) ∣ (0 - 960) / 2 ^ 32 * (8000 : UInt32).toNat) :=
  timestamp_advances_iff (by decide) (by decide) (by decide) (.spoken 960) [.spoken 0] 1 rfl

theorem overtaken_not_advances :
    rewritten 48000 8000 [.spoken 960, .spoken 0] = [160, 715827882] ∧
      ¬Advances 48000 8000 (.spoken 960) (.spoken 0) 160 715827882 := by
  decide +kernel

end

end NixiSbc.MediaClocks

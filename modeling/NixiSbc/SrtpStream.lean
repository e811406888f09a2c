import NixiSbc.SlidingWindow
import Mathlib.Algebra.Group.Nat.Defs
import Mathlib.Data.Set.Insert

namespace NixiSbc.SrtpStream

open SlidingWindow

/-- The state of one SSRC in one direction: rollover counter, highest sequence
number `s_l`, and the bitmap of the 64 indices that end at the highest one. -/
structure StreamState where
  roc : UInt32 := 0
  sL : UInt16 := 0
  started : Bool := false
  highestIndex : UInt64 := 0
  replay : UInt64 := 0
  lastUsed : UInt64 := 0
  deriving DecidableEq

def replayWindow : UInt64 := 64

def checkedSub (a b : UInt32) : Option UInt32 := if b ≤ a then some (a - b) else none

def checkedAdd (a b : UInt32) : Option UInt32 :=
  if a.toNat + b.toNat < 2 ^ 32 then some (a + b) else none

def packetIndex (roc : UInt32) (seq : UInt16) : UInt64 := (roc.toUInt64 <<< 16) ||| seq.toUInt64

/-- The rollover counter that puts `seq` nearest to `s_l`. There is none before
the first rollover and none past the last. -/
def guessRoc (st : StreamState) (seq : UInt16) : Option UInt32 :=
  if st.sL < 32768 then
    if (seq.toNat : Int) - st.sL.toNat > 32768 then checkedSub st.roc 1 else some st.roc
  else if (st.sL.toNat : Int) - 32768 > seq.toNat then checkedAdd st.roc 1
  else some st.roc

def estimate (st : StreamState) (seq : UInt16) : Option (UInt64 × UInt32) :=
  if st.started = false then some (seq.toUInt64, 0)
  else (guessRoc st seq).map fun v => (packetIndex v seq, v)

def accept (st : StreamState) (index : UInt64) (roc : UInt32) (seq : UInt16) : StreamState :=
  if st.started = false then
    { st with started := true, sL := seq, roc := roc, highestIndex := index, replay := 1 }
  else if index > st.highestIndex then
    if roc ≠ st.roc ∧ roc ≠ st.roc + 1 then st
    else
      let shift := index - st.highestIndex
      let replay := if shift ≥ 64 then 0 else st.replay <<< shift
      { st with replay := replay ||| 1, highestIndex := index, sL := seq, roc := roc }
  else
    let behind := st.highestIndex - index
    if behind < 64 then { st with replay := st.replay ||| (1 <<< behind) } else st

def isReplayed (st : StreamState) (index : UInt64) : Bool :=
  if st.started = false then false
  else if index > st.highestIndex then false
  else
    let behind := st.highestIndex - index
    if behind ≥ replayWindow then true else st.replay &&& (1 <<< behind) ≠ 0

theorem packetIndex_toNat (roc : UInt32) (seq : UInt16) :
    (packetIndex roc seq).toNat = roc.toNat * 65536 + seq.toNat := by
  have hr := roc.toNat_lt
  have hs := seq.toNat_lt
  have hshift : roc.toNat <<< ((16 : UInt64).toNat % 64) % 2 ^ 64 = roc.toNat <<< 16 := by
    rw [show (16 : UInt64).toNat % 64 = 16 from rfl, Nat.shiftLeft_eq]
    omega
  rw [packetIndex, UInt64.toNat_or, UInt64.toNat_shiftLeft, UInt32.toNat_toUInt64,
    UInt16.toNat_toUInt64, hshift, ← Nat.shiftLeft_add_eq_or_of_lt hs, Nat.shiftLeft_eq]

theorem checkedSub_one {roc v : UInt32} (h : checkedSub roc 1 = some v) :
    v.toNat + 1 = roc.toNat := by
  rw [checkedSub] at h
  split at h
  next hle =>
    cases h
    have h1 : 1 ≤ roc.toNat := UInt32.le_iff_toNat_le.mp hle
    rw [UInt32.toNat_sub_of_le _ _ hle]
    change roc.toNat - 1 + 1 = roc.toNat
    omega
  next hle => cases h

theorem checkedAdd_one {roc v : UInt32} (h : checkedAdd roc 1 = some v) :
    v = roc + 1 ∧ v.toNat = roc.toNat + 1 := by
  rw [checkedAdd] at h
  split at h
  next hlt =>
    cases h
    refine ⟨rfl, ?_⟩
    rw [UInt32.toNat_add]
    exact Nat.mod_eq_of_lt hlt
  next hlt => cases h

theorem guessRoc_cases {st : StreamState} {seq : UInt16} {v : UInt32}
    (h : guessRoc st seq = some v) :
    (v.toNat + 1 = st.roc.toNat) ∨ v = st.roc ∨ (v = st.roc + 1 ∧ v.toNat = st.roc.toNat + 1) := by
  rw [guessRoc] at h
  split at h
  · split at h
    · exact .inl (checkedSub_one h)
    · cases h
      exact .inr (.inl rfl)
  · split at h
    · exact .inr (.inr (checkedAdd_one h))
    · cases h
      exact .inr (.inl rfl)

/-- The two bounds of the half-space comparison: every true index closer than
`2^15` to the highest one is found again from its low sixteen bits. -/
theorem guessRoc_exact {st : StreamState} {seq : UInt16} {top i : Nat}
    (htop : top = st.roc.toNat * 65536 + st.sL.toNat) (hseq : i % 65536 = seq.toNat)
    (hlow : top ≤ i + 32767) (hhigh : i ≤ top + 32767) (hi : i < 2 ^ 48) :
    ∃ v, guessRoc st seq = some v ∧ v.toNat = i / 65536 := by
  have hs := st.sL.toNat_lt
  have hq := seq.toNat_lt
  have hlt : st.sL < 32768 ↔ st.sL.toNat < 32768 := UInt16.lt_iff_toNat_lt
  rw [guessRoc]
  by_cases hhalf : st.sL < 32768
  · have hhalf' := hlt.mp hhalf
    rw [if_pos hhalf]
    by_cases hback : (seq.toNat : Int) - st.sL.toNat > 32768
    · rw [if_pos hback]
      have hpos : 1 ≤ st.roc.toNat := by omega
      have hle : (1 : UInt32) ≤ st.roc := UInt32.le_iff_toNat_le.mpr hpos
      refine ⟨st.roc - 1, by rw [checkedSub, if_pos hle], ?_⟩
      rw [UInt32.toNat_sub_of_le _ _ hle]
      change st.roc.toNat - 1 = i / 65536
      omega
    · rw [if_neg hback]
      exact ⟨st.roc, rfl, by omega⟩
  · have hhalf' : ¬ st.sL.toNat < 32768 := fun h => hhalf (hlt.mpr h)
    rw [if_neg hhalf]
    by_cases hnext : (st.sL.toNat : Int) - 32768 > seq.toNat
    · rw [if_pos hnext]
      have hroom : st.roc.toNat + (1 : UInt32).toNat < 2 ^ 32 := by
        change st.roc.toNat + 1 < 2 ^ 32
        omega
      refine ⟨st.roc + 1, by rw [checkedAdd, if_pos hroom], ?_⟩
      rw [(checkedAdd_one (by rw [checkedAdd, if_pos hroom])).2]
      omega
    · rw [if_neg hnext]
      exact ⟨st.roc, rfl, by omega⟩

def window (st : StreamState) : Window 64 := ⟨st.highestIndex.toNat, st.replay.toBitVec⟩

theorem toBitVec_shiftLeft_of_lt (a b : UInt64) (h : b.toNat < 64) :
    (a <<< b).toBitVec = a.toBitVec <<< b.toNat := by
  rw [UInt64.toBitVec_shiftLeft, BitVec.shiftLeft_eq', BitVec.toNat_umod, UInt64.toNat_toBitVec]
  exact congrArg _ (Nat.mod_eq_of_lt h)

theorem and_bit_ne_zero (a b : UInt64) (h : b.toNat < 64) :
    a &&& (1 <<< b) ≠ 0 ↔ a.toBitVec.getLsbD b.toNat = true := by
  have hb : (1 <<< b : UInt64).toBitVec = BitVec.twoPow 64 b.toNat := by
    rw [toBitVec_shiftLeft_of_lt 1 b h, BitVec.twoPow_eq]
    rfl
  rw [ne_eq, ← UInt64.toBitVec_inj, UInt64.toBitVec_and, hb, BitVec.and_twoPow]
  have hne : BitVec.twoPow 64 b.toNat ≠ 0#64 := by
    intro hz
    have hbit := congrArg (·.getLsbD b.toNat) hz
    simp [h] at hbit
  split
  next hbit => simp [hbit, hne]
  next hbit => simp [hbit]

theorem isReplayed_eq_seen {st : StreamState} (hs : st.started = true) (i : UInt64) :
    isReplayed st i = (window st).seen i.toNat := by
  rw [isReplayed, if_neg (by simp [hs]), Window.seen, window]
  by_cases hgt : i > st.highestIndex
  · have hgt' := UInt64.lt_iff_toNat_lt.mp hgt
    rw [if_pos hgt]
    simp only [Nat.not_le.mpr hgt', decide_false, Bool.false_and]
  · have hle : i ≤ st.highestIndex := UInt64.not_lt.mp hgt
    have hsub := UInt64.toNat_sub_of_le _ _ hle
    rw [if_neg hgt]
    simp only [UInt64.le_iff_toNat_le.mp hle, decide_true, Bool.true_and]
    by_cases hold : st.highestIndex - i ≥ replayWindow
    · have hold' : 64 ≤ st.highestIndex.toNat - i.toNat := by
        rw [← hsub]
        exact UInt64.le_iff_toNat_le.mp hold
      rw [if_pos hold]
      simp only [hold', decide_true, Bool.true_or]
    · have hnew : ¬ 64 ≤ st.highestIndex.toNat - i.toNat := by
        rw [← hsub]
        exact fun h => hold (UInt64.le_iff_toNat_le.mpr h)
      rw [if_neg hold]
      simp only [hnew, decide_false, Bool.false_or]
      rw [Bool.eq_iff_iff, decide_eq_true_eq, and_bit_ne_zero _ _ (by omega), hsub]

theorem accept_first {st : StreamState} (hs : st.started = false) (i : UInt64) (roc : UInt32)
    (seq : UInt16) : accept st i roc seq =
      ⟨roc, seq, true, i, 1, st.lastUsed⟩ := by
  rw [accept, if_pos hs]

theorem accept_ahead {st : StreamState} {i : UInt64} {roc : UInt32} (hs : st.started = true)
    (hgt : i > st.highestIndex) (hroc : roc = st.roc ∨ roc = st.roc + 1) (seq : UInt16) :
    ∃ r, accept st i roc seq = ⟨roc, seq, true, i, r, st.lastUsed⟩ ∧
      r.toBitVec = st.replay.toBitVec <<< (i.toNat - st.highestIndex.toNat) ||| 1#64 := by
  have hsub := UInt64.toNat_sub_of_le _ _ (UInt64.le_of_lt hgt)
  have hroc' : ¬(roc ≠ st.roc ∧ roc ≠ st.roc + 1) := fun h => hroc.elim h.1 h.2
  refine ⟨_, by rw [accept, if_neg (by simp [hs]), if_pos hgt, if_neg hroc', hs], ?_⟩
  rw [UInt64.toBitVec_or]
  by_cases hfar : i - st.highestIndex ≥ 64
  · have hfar' : 64 ≤ i.toNat - st.highestIndex.toNat := by
      rw [← hsub]
      exact UInt64.le_iff_toNat_le.mp hfar
    rw [if_pos hfar, BitVec.shiftLeft_eq_zero hfar']
    rfl
  · rw [if_neg hfar,
      toBitVec_shiftLeft_of_lt _ _ (UInt64.lt_iff_toNat_lt.mp (UInt64.not_le.mp hfar)), hsub]
    rfl

theorem accept_behind {st : StreamState} {i : UInt64} (hs : st.started = true)
    (hle : i ≤ st.highestIndex) (hin : st.highestIndex.toNat < i.toNat + 64)
    (roc : UInt32) (seq : UInt16) :
    ∃ r, accept st i roc seq = { st with replay := r } ∧
      r.toBitVec = st.replay.toBitVec ||| 1#64 <<< (st.highestIndex.toNat - i.toNat) := by
  have hsub := UInt64.toNat_sub_of_le _ _ hle
  have hle' := UInt64.le_iff_toNat_le.mp hle
  have hnear : st.highestIndex - i < 64 := by
    apply UInt64.lt_iff_toNat_lt.mpr
    rw [hsub]
    change _ < 64
    omega
  refine ⟨_, by rw [accept, if_neg (by simp [hs]), if_neg (UInt64.not_lt.mpr hle), if_pos hnear], ?_⟩
  rw [UInt64.toBitVec_or, toBitVec_shiftLeft_of_lt _ _ (UInt64.lt_iff_toNat_lt.mp hnear), hsub]
  rfl

/-- What a stream that has carried the packet indices `S` looks like. -/
structure Carried (st : StreamState) (S : Set Nat) : Prop where
  started : st.started = true
  highest : st.highestIndex.toNat = st.roc.toNat * 65536 + st.sL.toNat
  tracks : Tracks (window st) S

/-- A table entry: untouched, or carrying what it accepted. -/
def Remembers (st : StreamState) (S : Set Nat) : Prop :=
  (st.started = false ∧ S = ∅) ∨ Carried st S

theorem Remembers.stamp {st : StreamState} {S : Set Nat} (h : Remembers st S) (stamp : UInt64) :
    Remembers { st with lastUsed := stamp } S := by
  rcases h with ⟨hs, he⟩ | hc
  · exact .inl ⟨hs, he⟩
  · exact .inr ⟨hc.started, hc.highest, hc.tracks⟩

theorem estimate_index {st : StreamState} {seq : UInt16} {i : UInt64} {v : UInt32}
    (h : estimate st seq = some (i, v)) : i = packetIndex v seq := by
  rw [estimate] at h
  split at h
  · cases h
    apply UInt64.toNat_inj.mp
    rw [packetIndex_toNat, UInt16.toNat_toUInt64]
    simp
  · obtain ⟨w, -, hw⟩ := Option.map_eq_some_iff.mp h
    cases hw
    rfl

theorem first_carried {st : StreamState} (hs : st.started = false) (seq : UInt16) :
    Carried (accept st seq.toUInt64 0 seq) {seq.toNat} := by
  rw [accept_first hs]
  refine ⟨rfl, by simp, ?_⟩
  have hw : window ⟨0, seq, true, seq.toUInt64, 1, st.lastUsed⟩ = Window.first 64 seq.toNat := by
    simp only [window, Window.first, UInt16.toNat_toUInt64]
    rfl
  rw [hw]
  exact first_tracks (by decide) seq.toNat

/-- An estimate above the highest index can only be on this rollover or the
next, so the early return of `accept` is never taken. -/
theorem Carried.estimate_ahead {st : StreamState} {S : Set Nat} (h : Carried st S)
    {seq : UInt16} {i : UInt64} {v : UInt32} (he : estimate st seq = some (i, v))
    (hgt : i > st.highestIndex) : v = st.roc ∨ v = st.roc + 1 := by
  have hi := estimate_index he
  rw [estimate, if_neg (by simp [h.started])] at he
  obtain ⟨w, hw, he⟩ := Option.map_eq_some_iff.mp he
  cases he
  rcases guessRoc_cases hw with hback | hsame | hnext
  · have hgt' := UInt64.lt_iff_toNat_lt.mp hgt
    have hq := seq.toNat_lt
    rw [h.highest, packetIndex_toNat] at hgt'
    omega
  · exact .inl hsame
  · exact .inr hnext.1

theorem Carried.accept {st : StreamState} {S : Set Nat} (h : Carried st S)
    {seq : UInt16} {i : UInt64} {v : UInt32} (he : estimate st seq = some (i, v))
    (hr : isReplayed st i = false) :
    i.toNat ∉ S ∧ Carried (accept st i v seq) (insert i.toNat S) := by
  rw [isReplayed_eq_seen h.started] at hr
  obtain ⟨hreach, hfresh⟩ := (h.tracks.seen_eq_false i.toNat).mp hr
  refine ⟨hfresh, ?_⟩
  have htr := h.tracks.record hreach
  by_cases hgt : i > st.highestIndex
  · obtain ⟨r, hacc, hbits⟩ := accept_ahead h.started hgt (h.estimate_ahead he hgt) seq
    rw [Window.record, if_pos (by exact UInt64.lt_iff_toNat_lt.mp hgt)] at htr
    rw [hacc]
    refine ⟨rfl, ?_, ?_⟩
    · rw [estimate_index he, packetIndex_toNat]
    · simpa only [window, hbits] using htr
  · have hle := UInt64.not_lt.mp hgt
    obtain ⟨r, hacc, hbits⟩ := accept_behind h.started hle hreach v seq
    rw [Window.record,
      if_neg (by exact Nat.not_lt.mpr (UInt64.le_iff_toNat_le.mp hle))] at htr
    rw [hacc]
    refine ⟨h.started, h.highest, ?_⟩
    simpa only [window, hbits] using htr

/-- One admission: an index that passes the replay test is new, and the stream
remembers it afterwards. -/
theorem Remembers.accept {st : StreamState} {S : Set Nat} (h : Remembers st S)
    {seq : UInt16} {i : UInt64} {v : UInt32} (he : estimate st seq = some (i, v))
    (hr : isReplayed st i = false) :
    i.toNat ∉ S ∧ Carried (SrtpStream.accept st i v seq) (insert i.toNat S) := by
  rcases h with ⟨hs, rfl⟩ | h
  · rw [estimate, if_pos hs] at he
    cases he
    have hc := first_carried hs seq
    simpa using hc
  · exact h.accept he hr

end NixiSbc.SrtpStream
